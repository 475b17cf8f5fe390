import Greptime.Query.RangeSplit
import Mathlib.Data.Finset.Max
import Mathlib.Data.List.Chain

/-!
# Working ranges of the windowed sort (`compute_all_working_ranges`)

The windowed sort merges what it has read each time its input leaves a *working range*: a
run of consecutive pieces of `split_overlapping_ranges`, with the set of the ranges over them.
`compute_all_working_ranges` walks the pieces in order (in reverse for a descending sort) and
extends the current working range over the next piece unless the two share no range, or share
only the last range of the working set and the piece has no range before it.

The source states what the working ranges are for: "once input stream get a value out of
current range, future values will never be in this range".  For ascending ranges that each
hold a point and come in the order of their starts, `computeAllWorkingRanges_promise` proves
it in the form the stream needs: when a range reaches past the end of a working range, every
later range starts at that end or after.  The argument looks at the working range `k` in which
the later range starts: the earlier range crosses the end of `k` too, so it is both in the set
of `k` and in the first piece after `k`, and the cut at the end of `k` then makes it the largest
index of `k`, while the later range, also in `k`, has a larger index.

`computeAllWorkingRanges_descending` reduces the descending walk to the ascending one over the
mirror images of the pieces (`TimeRange.reflect`), and `SplitOf.reflect` says that the mirror
images of the pieces of ranges are the pieces of the mirror images of the ranges.

The working set is a `BTreeSet<usize>`, modelled as a `Finset ℕ`: its last element is its
`max`, compared with the indices of a piece as `Option` compares, with `None` first.
-/

namespace Greptime

namespace WindowSort

open TimeRange

/-- The `need_expand` test of `compute_all_working_ranges`: the working range must grow over
the next piece, whose ranges are `set`, unless they share no range with the working set, or
share only its last range and have no range before it. -/
def needExpand (workingSet : Finset ℕ) (set : List ℕ) : Bool :=
  let lastPart := workingSet.max
  let inter := workingSet ∩ set.toFinset
  if inter.card = 1 ∧ ∀ one ∈ inter, WithBot.some one = lastPart then
    if set.all fun p => WithBot.some p ≥ lastPart then false else true
  else if inter = ∅ then false
  else true

/-- One turn of the loop of `compute_all_working_ranges`: the finished working ranges and the
current one. -/
def workingStep (descending : Bool)
    (acc : List (TimeRange × Finset ℕ) × Option (TimeRange × Finset ℕ))
    (x : TimeRange × List ℕ) : List (TimeRange × Finset ℕ) × Option (TimeRange × Finset ℕ) :=
  match acc.2 with
  | none => (acc.1, some (x.1, x.2.toFinset))
  | some (workingRange, workingSet) =>
    if needExpand workingSet x.2 then
      (acc.1, some (if descending then { workingRange with start := x.1.start }
        else { workingRange with «end» := x.1.end }, workingSet ∪ x.2.toFinset))
    else (acc.1 ++ [(workingRange, workingSet)], some (x.1, x.2.toFinset))

/-- `compute_all_working_ranges`. -/
def computeAllWorkingRanges (overlapCounts : List (TimeRange × List ℕ)) (descending : Bool) :
    List (TimeRange × Finset ℕ) :=
  let overlapIter := if descending then overlapCounts.reverse else overlapCounts
  let acc := overlapIter.foldl (workingStep descending) ([], none)
  match acc.2 with
  | some cur => acc.1 ++ [cur]
  | none => acc.1

/-! ## The cut between two working ranges -/

/-- Where the working range is not extended, the working set and the next piece share no
range, or only the last one of the working set. -/
lemma needExpand_eq_false {workingSet : Finset ℕ} {set : List ℕ}
    (h : needExpand workingSet set = false) :
    ∀ i ∈ workingSet, i ∈ set → WithBot.some i = workingSet.max := by
  intro i hi his
  have hinter : i ∈ workingSet ∩ set.toFinset := Finset.mem_inter.mpr ⟨hi, List.mem_toFinset.mpr his⟩
  simp only [needExpand] at h
  split_ifs at h with h₁ h₂ h₃
  · exact h₁.2 i hinter
  · rw [h₃] at hinter
    cases hinter

/-! ## Working ranges as groups of pieces -/

/-- The working range of a group of consecutive pieces, extended from its first piece as the
ascending walk extends it, with the union of their ranges. -/
def hull : List (TimeRange × List ℕ) → TimeRange × Finset ℕ
  | [] => (⟨0, 0⟩, ∅)
  | p :: g => g.foldl (fun w q => (⟨w.1.start, q.1.end⟩, w.2 ∪ q.2.toFinset)) (p.1, p.2.toFinset)

lemma hull_append_singleton {g : List (TimeRange × List ℕ)} (hg : g ≠ []) (x : TimeRange × List ℕ) :
    hull (g ++ [x]) = (⟨(hull g).1.start, x.1.end⟩, (hull g).2 ∪ x.2.toFinset) := by
  obtain ⟨p, g, rfl⟩ := List.exists_cons_of_ne_nil hg
  simp [hull, List.foldl_append]

lemma hull_start {p : TimeRange × List ℕ} {g : List (TimeRange × List ℕ)} :
    (hull (p :: g)).1.start = p.1.start := by
  induction g using List.reverseRecOn with
  | nil => rfl
  | append_singleton g x ih =>
    rw [← List.cons_append, hull_append_singleton (List.cons_ne_nil _ _)]
    exact ih

lemma hull_end {g : List (TimeRange × List ℕ)} (hg : g ≠ []) :
    (hull g).1.end = (g.getLast hg).1.end := by
  induction g using List.reverseRecOn with
  | nil => exact absurd rfl hg
  | append_singleton g x ih =>
    by_cases hg' : g = []
    · subst hg'
      rfl
    · rw [hull_append_singleton hg', List.getLast_append_singleton]

lemma mem_hull_set {g : List (TimeRange × List ℕ)} (hg : g ≠ []) {i : ℕ} :
    i ∈ (hull g).2 ↔ ∃ x ∈ g, i ∈ x.2 := by
  induction g using List.reverseRecOn with
  | nil => exact absurd rfl hg
  | append_singleton g x ih =>
    by_cases hg' : g = []
    · subst hg'
      simp [hull]
    · rw [hull_append_singleton hg', Finset.mem_union, ih hg', List.mem_toFinset]
      simp [or_and_right, exists_or]

/-- The cut between consecutive groups: the working range of the first is not extended over
the first piece of the second. -/
def Cut (g g' : List (TimeRange × List ℕ)) : Prop :=
  ∀ q ∈ g'.head?, needExpand (hull g).2 q.2 = false

/-- Extending the last group keeps the cuts: its first piece is unchanged. -/
lemma isChain_cut_extend {groups : List (List (TimeRange × List ℕ))} {g : List (TimeRange × List ℕ)}
    (h : (groups ++ [g]).IsChain Cut) (hg : g ≠ []) (x : TimeRange × List ℕ) :
    (groups ++ [g ++ [x]]).IsChain Cut := by
  obtain ⟨hgroups, -, hlast⟩ := List.isChain_append.mp h
  refine hgroups.append (List.isChain_singleton _) fun a ha b hb => ?_
  obtain ⟨p, g, rfl⟩ := List.exists_cons_of_ne_nil hg
  simp only [List.head?_cons, Option.mem_def, Option.some.injEq] at hb
  subst hb
  intro q hq
  exact hlast a ha (p :: g) rfl q (by simpa using hq)

/-- Closing the last group and starting a new one at a piece the test does not extend over. -/
lemma isChain_cut_close {groups : List (List (TimeRange × List ℕ))} {g : List (TimeRange × List ℕ)}
    (h : (groups ++ [g]).IsChain Cut) (x : TimeRange × List ℕ)
    (hx : needExpand (hull g).2 x.2 = false) : (groups ++ [g] ++ [[x]]).IsChain Cut := by
  refine h.append (List.isChain_singleton _) fun a ha b hb => ?_
  simp only [List.getLast?_append, List.getLast?_singleton, Option.some_or, Option.mem_def,
    Option.some.injEq, List.head?_cons] at ha hb
  subst ha hb
  intro q hq
  simp only [List.head?_cons, Option.mem_def, Option.some.injEq] at hq
  exact hq ▸ hx

/-- The ascending walk cuts the pieces into groups, with a cut between consecutive groups, and
each working range is the range and set of its group. -/
lemma foldl_workingStep (pieces : List (TimeRange × List ℕ)) (hne : pieces ≠ []) :
    ∃ groups g, (groups ++ [g]).flatten = pieces ∧ (∀ h ∈ groups ++ [g], h ≠ []) ∧
      pieces.foldl (workingStep false) ([], none) = (groups.map hull, some (hull g)) ∧
      (groups ++ [g]).IsChain Cut := by
  induction pieces using List.reverseRecOn with
  | nil => exact absurd rfl hne
  | append_singleton pieces x ih =>
    by_cases hne' : pieces = []
    · subst hne'
      exact ⟨[], [x], by simp, by simp, by simp [workingStep, hull], List.isChain_singleton _⟩
    obtain ⟨groups, g, hflat, hnil, hfold, hcuts⟩ := ih hne'
    have hg : g ≠ [] := hnil g (List.mem_append_right _ List.mem_cons_self)
    rw [List.foldl_append, hfold, List.foldl_cons, List.foldl_nil]
    cases hx : needExpand (hull g).2 x.2 with
    | true =>
      -- the working range grows over `x`
      refine ⟨groups, g ++ [x], by simp [← hflat], ?_, ?_, isChain_cut_extend hcuts hg x⟩
      · intro h hh
        rcases List.mem_append.mp hh with hh | hh
        · exact hnil h (List.mem_append_left _ hh)
        · rw [List.mem_singleton.mp hh]
          simp
      · simp [workingStep, hx, hull_append_singleton hg]
    | false =>
      -- the working range is closed and `x` starts the next one
      refine ⟨groups ++ [g], [x], by simp [← hflat], ?_, ?_, isChain_cut_close hcuts x hx⟩
      · intro h hh
        rcases List.mem_append.mp hh with hh | hh
        · exact hnil h hh
        · rw [List.mem_singleton.mp hh]
          simp
      · simp only [workingStep, hx, Bool.false_eq_true, if_false, List.map_append, List.map_cons,
          List.map_nil]
        simp [hull]

/-- Groups of consecutive pieces, none empty, with a cut between consecutive ones. -/
structure Grouped (pieces : List (TimeRange × List ℕ))
    (groups : List (List (TimeRange × List ℕ))) : Prop where
  flatten_eq : groups.flatten = pieces
  ne_nil : ∀ g ∈ groups, g ≠ []
  cuts : groups.IsChain Cut

/-- The ascending working ranges are the ranges and sets of groups of consecutive pieces, with a
cut between consecutive groups. -/
theorem computeAllWorkingRanges_spec (pieces : List (TimeRange × List ℕ)) :
    ∃ groups, Grouped pieces groups ∧ computeAllWorkingRanges pieces false = groups.map hull := by
  by_cases hne : pieces = []
  · subst hne
    exact ⟨[], ⟨rfl, by simp, List.IsChain.nil⟩, rfl⟩
  obtain ⟨groups, g, hflat, hnil, hfold, hcuts⟩ := foldl_workingStep pieces hne
  refine ⟨groups ++ [g], ⟨hflat, hnil, hcuts⟩, ?_⟩
  simp [computeAllWorkingRanges, hfold]

/-! ## The descending walk in the mirror -/

/-- A piece, or a working range, seen in the mirror. -/
def reflectEntry {β : Type} (x : TimeRange × β) : TimeRange × β := (x.1.reflect, x.2)

@[simp] lemma reflectEntry_reflectEntry {β : Type} (x : TimeRange × β) :
    reflectEntry (reflectEntry x) = x := by
  simp [reflectEntry]

/-- The state of the walk seen in the mirror. -/
def reflectAcc (acc : List (TimeRange × Finset ℕ) × Option (TimeRange × Finset ℕ)) :
    List (TimeRange × Finset ℕ) × Option (TimeRange × Finset ℕ) :=
  (acc.1.map reflectEntry, acc.2.map reflectEntry)

/-- A descending step is an ascending step in the mirror: growing a working range down to the
start of a piece is growing its mirror image up to the end of the piece's. -/
lemma workingStep_reflect (acc : List (TimeRange × Finset ℕ) × Option (TimeRange × Finset ℕ))
    (x : TimeRange × List ℕ) :
    workingStep false (reflectAcc acc) (reflectEntry x) = reflectAcc (workingStep true acc x) := by
  obtain ⟨ret, cur⟩ := acc
  cases cur with
  | none => rfl
  | some c =>
    obtain ⟨workingRange, workingSet⟩ := c
    cases h : needExpand workingSet x.2
    · simp [workingStep, reflectAcc, reflectEntry, h]
    · simp [workingStep, reflectAcc, reflectEntry, h, TimeRange.reflect]

lemma foldl_workingStep_reflect (l : List (TimeRange × List ℕ))
    (acc : List (TimeRange × Finset ℕ) × Option (TimeRange × Finset ℕ)) :
    (l.map reflectEntry).foldl (workingStep false) (reflectAcc acc) =
      reflectAcc (l.foldl (workingStep true) acc) := by
  induction l generalizing acc with
  | nil => rfl
  | cons x l ih => rw [List.map_cons, List.foldl_cons, workingStep_reflect, ih, List.foldl_cons]

/-- The descending working ranges are the mirror images of the ascending working ranges of the
mirror images of the pieces. -/
theorem computeAllWorkingRanges_descending (pieces : List (TimeRange × List ℕ)) :
    computeAllWorkingRanges pieces true =
      (computeAllWorkingRanges (pieces.reverse.map reflectEntry) false).map reflectEntry := by
  have h := foldl_workingStep_reflect pieces.reverse ([], none)
  simp only [reflectAcc, List.map_nil, Option.map_none] at h
  simp only [computeAllWorkingRanges, if_true, Bool.false_eq_true, if_false, h]
  cases (pieces.reverse.foldl (workingStep true) ([], none)).2 <;> simp [Function.comp_def]

/-- The mirror images of the pieces of ranges, in reverse, are the pieces of the mirror images
of the ranges. -/
theorem SplitOf.reflect {keys : List TimeRange} {pieces : List (TimeRange × List ℕ)}
    (hs : SplitOf keys pieces) :
    SplitOf (keys.map TimeRange.reflect) (pieces.reverse.map reflectEntry) := by
  have hmem : ∀ {x}, x ∈ pieces.reverse.map reflectEntry ↔ reflectEntry x ∈ pieces := by
    intro x
    simp only [List.mem_map, List.mem_reverse]
    constructor
    · rintro ⟨y, hy, rfl⟩
      simpa using hy
    · intro hx
      exact ⟨reflectEntry x, hx, by simp⟩
  refine ⟨⟨?_, fun x hx => ?_, fun x hx y hy t htx hty => ?_⟩, fun x hx t ht i => ?_, ?_⟩
  · -- the order of the pieces is reversed by the mirror
    unfold SortedMap.Sorted
    rw [List.pairwise_map, List.pairwise_reverse]
    refine hs.toApart.pairwise.imp_of_mem fun {a b} ha hb hab => ?_
    have hpb := hs.proper b hb
    rw [TimeRange.lt_iff]
    left
    simp only [reflectEntry, reflect_start]
    unfold Proper at hpb
    omega
  · simpa [reflectEntry] using hs.proper _ (hmem.mp hx)
  · have := hs.apart _ (hmem.mp hx) _ (hmem.mp hy) (-t)
      (by simpa [reflectEntry, mem_reflect] using htx) (by simpa [reflectEntry, mem_reflect] using hty)
    simpa using congrArg reflectEntry this
  · have := hs.parts _ (hmem.mp hx) (-t) (by simpa [reflectEntry, mem_reflect] using ht) i
    simp only [reflectEntry] at this
    rw [this, List.getElem?_map]
    constructor
    · rintro ⟨r, hr, htr⟩
      exact ⟨r.reflect, by rw [hr]; rfl, mem_reflect.mpr htr⟩
    · rintro ⟨r', hr', htr'⟩
      cases hr : keys[i]? with
      | none => simp [hr] at hr'
      | some r =>
        rw [hr, Option.map_some, Option.some.injEq] at hr'
        exact ⟨r, rfl, mem_reflect.mp (hr' ▸ htr')⟩
  · intro r' hr' t ht
    obtain ⟨r, hr, rfl⟩ := List.mem_map.mp hr'
    obtain ⟨x, hx, htx⟩ := hs.covers r hr (-t) (mem_reflect.mp ht)
    exact ⟨reflectEntry x, hmem.mpr (by simpa using hx), by simpa [reflectEntry, mem_reflect] using htx⟩

/-! ## What the working ranges promise -/

section Promise

variable {keys : List TimeRange} {pieces : List (TimeRange × List ℕ)}
  {groups : List (List (TimeRange × List ℕ))}

/-- A piece of an earlier group ends before a piece of a later group starts. -/
lemma Grouped.end_le_start (hs : SplitOf keys pieces) (hg : Grouped pieces groups) {k k' : ℕ}
    (hk : k < k') (hk' : k' < groups.length) {x y : TimeRange × List ℕ}
    (hx : x ∈ groups[k]) (hy : y ∈ groups[k']) : x.1.end ≤ y.1.start := by
  have hpw := hs.toApart.pairwise
  rw [← hg.flatten_eq, List.pairwise_flatten] at hpw
  exact List.pairwise_iff_getElem.mp hpw.2 k k' (by omega) hk' hk x hx y hy

lemma Grouped.pairwise_of_mem (hs : SplitOf keys pieces) (hg : Grouped pieces groups)
    {g : List (TimeRange × List ℕ)} (hgm : g ∈ groups) :
    g.Pairwise fun x y => x.1.end ≤ y.1.start := by
  have hpw := hs.toApart.pairwise
  rw [← hg.flatten_eq, List.pairwise_flatten] at hpw
  exact hpw.1 g hgm

lemma Grouped.proper_of_mem (hs : SplitOf keys pieces) (hg : Grouped pieces groups)
    {g : List (TimeRange × List ℕ)} (hgm : g ∈ groups) {x : TimeRange × List ℕ} (hx : x ∈ g) :
    x.1.Proper :=
  hs.proper x (hg.flatten_eq ▸ List.mem_flatten.mpr ⟨g, hgm, hx⟩)

lemma Grouped.exists_of_mem (hg : Grouped pieces groups) {x : TimeRange × List ℕ}
    (hx : x ∈ pieces) : ∃ k, ∃ hk : k < groups.length, x ∈ groups[k] := by
  rw [← hg.flatten_eq, List.mem_flatten] at hx
  obtain ⟨g, hg', hxg⟩ := hx
  obtain ⟨k, hk, rfl⟩ := List.mem_iff_getElem.mp hg'
  exact ⟨k, hk, hxg⟩

/-- In a list ordered by `R`, an element is the last one or before it. -/
lemma eq_getLast_or_rel {α : Type} {R : α → α → Prop} {l : List α} (hl : l.Pairwise R)
    (hne : l ≠ []) {x : α} (hx : x ∈ l) : x = l.getLast hne ∨ R x (l.getLast hne) := by
  rw [← List.dropLast_append_getLast hne] at hl hx
  rcases List.mem_append.mp hx with hx | hx
  · exact .inr ((List.pairwise_append.mp hl).2.2 x hx _ List.mem_cons_self)
  · exact .inl (List.mem_singleton.mp hx)

/-- A piece of a group lies within the working range of the group. -/
lemma hull_bounds {g : List (TimeRange × List ℕ)} (hgp : g.Pairwise fun x y => x.1.end ≤ y.1.start)
    (hv : ∀ x ∈ g, x.1.Valid) {x : TimeRange × List ℕ} (hx : x ∈ g) :
    (hull g).1.start ≤ x.1.start ∧ x.1.end ≤ (hull g).1.end := by
  have hne : g ≠ [] := List.ne_nil_of_mem hx
  constructor
  · obtain ⟨p, g', rfl⟩ := List.exists_cons_of_ne_nil hne
    rw [hull_start]
    rcases List.mem_cons.mp hx with rfl | hx'
    · exact le_refl _
    · exact le_trans (hv p List.mem_cons_self) (List.rel_of_pairwise_cons hgp hx')
  · rw [hull_end hne]
    rcases eq_getLast_or_rel hgp hne hx with h | h
    · rw [h]
    · exact le_trans h (hv _ (List.getLast_mem hne))

/-- Every point of a range is in a working range. -/
theorem exists_workingRange_of_mem (hs : SplitOf keys pieces) {r : TimeRange} (hr : r ∈ keys)
    {t : ℤ} (ht : t ∈ r) : ∃ w ∈ computeAllWorkingRanges pieces false, t ∈ w.1 := by
  obtain ⟨groups, hg, hW⟩ := computeAllWorkingRanges_spec pieces
  obtain ⟨x, hx, htx⟩ := hs.covers r hr t ht
  rw [← hg.flatten_eq, List.mem_flatten] at hx
  obtain ⟨g, hgm, hxg⟩ := hx
  have hb := hull_bounds (hg.pairwise_of_mem hs hgm)
    (fun y hy => (hg.proper_of_mem hs hgm hy).valid) hxg
  rw [mem_def] at htx
  refine ⟨hull g, hW ▸ List.mem_map_of_mem hgm, ?_⟩
  rw [mem_def]
  omega

/-- The working ranges come in order: each ends before the next starts. -/
theorem computeAllWorkingRanges_pairwise (hs : SplitOf keys pieces) :
    (computeAllWorkingRanges pieces false).Pairwise fun a b => a.1.end ≤ b.1.start := by
  obtain ⟨groups, hg, hW⟩ := computeAllWorkingRanges_spec pieces
  have hpw := hs.toApart.pairwise
  rw [← hg.flatten_eq, List.pairwise_flatten] at hpw
  rw [hW, List.pairwise_map]
  refine hpw.2.imp_of_mem fun {g g'} hgm hgm' h => ?_
  have hne := hg.ne_nil g hgm
  have hne' := hg.ne_nil g' hgm'
  obtain ⟨q, g'', rfl⟩ := List.exists_cons_of_ne_nil hne'
  rw [hull_end hne, hull_start]
  exact h _ (List.getLast_mem hne) q List.mem_cons_self

/-- A range over both sides of the end of a group is in the set of the group, and in the first
piece of the next group, which starts at that end. -/
lemma crossing (hs : SplitOf keys pieces) (hg : Grouped pieces groups) {k : ℕ}
    (hk : k < groups.length) {i : ℕ} {r : TimeRange} (hi : keys[i]? = some r)
    (h₁ : (hull groups[k]).1.end - 1 ∈ r) (h₂ : (hull groups[k]).1.end ∈ r) :
    i ∈ (hull groups[k]).2 ∧
      ∃ hk' : k + 1 < groups.length, ∃ q, groups[k + 1].head? = some q ∧ i ∈ q.2 := by
  have hgm : groups[k] ∈ groups := List.getElem_mem hk
  have hne := hg.ne_nil _ hgm
  rw [hull_end hne] at h₁ h₂
  set p := groups[k].getLast hne with hp
  have hpm : p ∈ groups[k] := List.getLast_mem hne
  have hpp := hg.proper_of_mem hs hgm hpm
  have hpieces : ∀ {k'} (hk' : k' < groups.length) {x}, x ∈ groups[k'] → x ∈ pieces := by
    intro k' hk' x hx
    exact hg.flatten_eq ▸ List.mem_flatten.mpr ⟨_, List.getElem_mem hk', hx⟩
  -- the last point of the group is in its last piece, whose ranges hold it
  have hlast : p.1.end - 1 ∈ p.1 := by
    rw [mem_def]
    unfold Proper at hpp
    omega
  refine ⟨(mem_hull_set hne).mpr ⟨p, hpm, ((hs.parts p (hpieces hk hpm) _ hlast i).mpr ⟨r, hi, h₁⟩)⟩, ?_⟩
  -- the end of the group is in a piece of a later group
  obtain ⟨q', hq', hbq'⟩ := hs.covers r (List.mem_of_getElem? hi) _ h₂
  obtain ⟨k', hk', hq'g⟩ := hg.exists_of_mem hq'
  have hkk' : k < k' := by
    by_contra hle
    rw [not_lt] at hle
    rw [mem_def] at hbq'
    rcases Nat.lt_or_ge k' k with hlt | hge
    · have := hg.end_le_start hs hlt hk hq'g hpm
      have := (hg.proper_of_mem hs hgm hpm)
      unfold Proper at this
      omega
    · have hkeq : k' = k := le_antisymm hle hge
      subst hkeq
      have := (hull_bounds (hg.pairwise_of_mem hs hgm)
        (fun y hy => (hg.proper_of_mem hs hgm hy).valid) hq'g).2
      rw [hull_end hne, ← hp] at this
      omega
  have hk1 : k + 1 < groups.length := by omega
  have hgm1 : groups[k + 1] ∈ groups := List.getElem_mem hk1
  obtain ⟨q, g', hq⟩ := List.exists_cons_of_ne_nil (hg.ne_nil _ hgm1)
  have hqm : q ∈ groups[k + 1] := hq ▸ List.mem_cons_self
  have hqp := hg.proper_of_mem hs hgm1 hqm
  -- the first piece of the next group starts at the end of the group
  have hge : p.1.end ≤ q.1.start := hg.end_le_start hs (Nat.lt_succ_self k) hk1 hpm hqm
  have hle : q.1.start ≤ p.1.end := by
    rw [mem_def] at hbq'
    rcases Nat.lt_or_ge (k + 1) k' with hlt | hge'
    · have := hg.end_le_start hs hlt hk' hqm hq'g
      unfold Proper at hqp
      omega
    · have hkeq : k' = k + 1 := by omega
      subst hkeq
      have := (hull_bounds (hg.pairwise_of_mem hs hgm1)
        (fun y hy => (hg.proper_of_mem hs hgm1 hy).valid) hq'g).1
      rw [hq, hull_start] at this
      omega
  have hbq : p.1.end ∈ q.1 := by
    rw [mem_def]
    unfold Proper at hqp
    omega
  exact ⟨hk1, q, by rw [hq]; rfl,
    (hs.parts q (hpieces hk1 hqm) _ hbq i).mpr ⟨r, hi, h₂⟩⟩

/-- What the working ranges promise, for ranges that each hold a point and come in the order of
their starts: when a range reaches past the end of a working range, every later range starts at
that end or after.  So once the input, read range by range, holds a value past the end of a
working range, no later value falls back into it. -/
theorem computeAllWorkingRanges_promise (hs : SplitOf keys pieces)
    (hmono : keys.Pairwise fun a b => a.start ≤ b.start) (hprop : ∀ r ∈ keys, r.Proper)
    {i i' : ℕ} {r r' : TimeRange} (hi : keys[i]? = some r) (hi' : keys[i']? = some r')
    (hlt : i < i') {w : TimeRange × Finset ℕ} (hw : w ∈ computeAllWorkingRanges pieces false)
    (hend : w.1.end < r.end) : w.1.end ≤ r'.start := by
  obtain ⟨groups, hg, hW⟩ := computeAllWorkingRanges_spec pieces
  rw [hW, List.mem_map] at hw
  obtain ⟨gj, hgj, rfl⟩ := hw
  obtain ⟨j, hj, rfl⟩ := List.mem_iff_getElem.mp hgj
  by_contra hcon
  rw [not_le] at hcon
  -- the later range starts in a piece of some group `k`
  have hr' := hprop r' (List.mem_of_getElem? hi')
  have hs' : r'.start ∈ r' := start_mem_of_proper hr'
  obtain ⟨p', hp', hsp'⟩ := hs.covers r' (List.mem_of_getElem? hi') _ hs'
  obtain ⟨k, hk, hp'g⟩ := hg.exists_of_mem hp'
  have hgk : groups[k] ∈ groups := List.getElem_mem hk
  have hbk := hull_bounds (hg.pairwise_of_mem hs hgk)
    (fun y hy => (hg.proper_of_mem hs hgk hy).valid) hp'g
  rw [mem_def] at hsp'
  -- the group `k` ends no later than the working range `j`
  have hkj : (hull groups[k]).1.end ≤ (hull groups[j]).1.end := by
    have hnej := hg.ne_nil _ hgj
    have hnek := hg.ne_nil _ hgk
    rw [hull_end hnej, hull_end hnek]
    rcases lt_trichotomy k j with hlt' | rfl | hgt
    · have := hg.end_le_start hs hlt' hj (List.getLast_mem hnek) (List.getLast_mem hnej)
      have := (hg.proper_of_mem hs hgj (List.getLast_mem hnej)).valid
      unfold Valid at this
      omega
    · exact le_refl _
    · have := hg.end_le_start hs hgt hk (List.getLast_mem hnej) hp'g
      rw [hull_end hnej] at hcon
      omega
  -- the earlier range starts no later, so it holds both sides of the end of group `k`
  have hstart : r.start ≤ r'.start := by
    have := List.pairwise_iff_getElem.mp hmono i i' (List.getElem?_eq_some_iff.mp hi).1
      (List.getElem?_eq_some_iff.mp hi').1 hlt
    rwa [(List.getElem?_eq_some_iff.mp hi).2, (List.getElem?_eq_some_iff.mp hi').2] at this
  obtain ⟨hik, hk1, q, hq, hiq⟩ := crossing hs hg hk hi
    (by rw [mem_def]; omega) (by rw [mem_def]; omega)
  have hi'k : i' ∈ (hull groups[k]).2 :=
    (mem_hull_set (hg.ne_nil _ hgk)).mpr ⟨p', hp'g,
      (hs.parts p' hp' _ (by rw [mem_def]; omega) i').mpr ⟨r', hi', hs'⟩⟩
  -- the cut at the end of group `k` makes `i` its largest index, but `i'` is larger
  have hcut := List.isChain_iff_getElem.mp hg.cuts k hk1 q (by rw [hq]; rfl)
  have hmax := needExpand_eq_false hcut i hik hiq
  have hle : WithBot.some i' ≤ (hull groups[k]).2.max := Finset.le_max hi'k
  rw [← hmax] at hle
  have := WithBot.coe_le_coe.mp hle
  omega

end Promise

end WindowSort

end Greptime
