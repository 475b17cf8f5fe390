import Mathlib
import Greptime.Foundations.Lex

/-!
# Sorted runs of ranged items (`mito2::compaction::run`)

Compaction works on items with an inclusive range (files, or groups of files written by one
compaction).  A *sorted run* is a list of items that do not overlap one another, so a window
whose items form one run needs no merge to be read in order.

* `find_sorted_runs` sorts the items by `(start asc, end desc)` and then sweeps them again
  and again, each sweep taking into a new run every item that does not overlap the last item
  taken (`Ranged::overlap`).
* `reduce_runs` looks at every pair among the 100 smallest runs and picks the items of the
  two runs that overlap each other (`find_overlapping_items`), for the pair whose overlapping
  items are smallest in total.
* `merge_seq_files` picks, among the contiguous groups of one run, the one with the best
  score, computed with `f64` arithmetic.

Two notions of overlap meet here: `Ranged::overlap` compares with `<`, so two items that only
touch at one end, or a single-point item inside another item's range, do not overlap, while
`find_overlapping_items` compares with `<=`.
-/

namespace Greptime

/-- `Ranged`: an item with an inclusive range. -/
class Ranged (T : Type) (B : outParam Type) where
  range : T → B × B

/-- `Item`: a ranged item with a size, the cost of merging it. -/
class Item (T : Type) (B : outParam Type) extends Ranged T B where
  size : T → ℕ

variable {T B : Type} [LinearOrder B]

namespace Ranged

variable [Ranged T B]

/-- `Ranged::overlap`: the larger start is strictly below the smaller end. -/
def overlap (a b : T) : Bool :=
  decide (max (range a).1 (range b).1 < min (range a).2 (range b).2)

/-- The overlap `find_overlapping_items` tests: the inclusive ranges intersect. -/
def overlapInclusive (a b : T) : Bool :=
  decide (max (range a).1 (range b).1 ≤ min (range a).2 (range b).2)

/-- The order of `sort_ranged_items`: start ascending, end descending. -/
def SortLe (a b : T) : Prop :=
  (range a).1 < (range b).1 ∨ ((range a).1 = (range b).1 ∧ (range b).2 ≤ (range a).2)

instance : DecidableRel (SortLe (T := T) (B := B)) := fun a b =>
  inferInstanceAs (Decidable ((range a).1 < (range b).1 ∨
    ((range a).1 = (range b).1 ∧ (range b).2 ≤ (range a).2)))

instance : Std.Total (SortLe (T := T) (B := B)) where
  total a b := Lex.total_asc_desc (range a).1 (range b).1 (range a).2 (range b).2

instance : IsTrans T (SortLe (T := T) (B := B)) where
  trans _ _ _ hab hbc := Lex.trans_asc_desc hab hbc

end Ranged

open Ranged

/-- `sort_ranged_items`.  The source sorts unstably; insertion sort is one of its outcomes,
and the two differ only in the order of items with equal ranges. -/
def sortRangedItems [Ranged T B] (items : List T) : List T :=
  items.insertionSort SortLe

/-- `SortedRun`: its items and their total size.  The source also tracks the bounds of the
run, which nothing modelled reads, and whether its items are sorted, which only saves
sorting them twice. -/
structure SortedRun (T : Type) where
  items : List T
  size : ℕ
  deriving DecidableEq, Repr

namespace SortedRun

variable [Item T B]

/-- `SortedRun::default`. -/
def empty : SortedRun T := ⟨[], 0⟩

/-- `SortedRun::push_item`. -/
def pushItem (r : SortedRun T) (t : T) : SortedRun T := ⟨r.items ++ [t], r.size + Item.size t⟩

/-- One sweep of the loop of `find_sorted_runs` over the items not yet in a run: an item
joins the run when the run is empty or the item does not overlap the run's last item; the
items left over are returned in order. -/
def sweep : SortedRun T → List T → SortedRun T × List T
  | run, [] => (run, [])
  | run, item :: rest =>
    match run.items.getLast? with
    | some last =>
      if overlap last item then
        let (run, left) := sweep run rest
        (run, item :: left)
      else sweep (run.pushItem item) rest
    | none => sweep (run.pushItem item) rest

end SortedRun

/-- The `while` loop of `find_sorted_runs`, one sweep per run; every sweep takes at least one
item, so as many sweeps as items suffice. -/
def findSortedRunsLoop [Item T B] : ℕ → List T → List (SortedRun T)
  | 0, _ => []
  | _, [] => []
  | n + 1, items =>
    let (run, left) := SortedRun.empty.sweep items
    run :: findSortedRunsLoop n left

/-- `find_sorted_runs`. -/
def findSortedRuns [Item T B] (items : List T) : List (SortedRun T) :=
  if items = [] then [] else findSortedRunsLoop items.length (sortRangedItems items)

/-! ### What `find_sorted_runs` computes -/

namespace SortedRun

variable [Item T B]

/-- Two items a sorted run may hold one after the other: they do not overlap. -/
def Apart (a b : T) : Prop := overlap a b = false

/-- An item the run takes: the run is empty or its last item does not overlap the item. -/
def Takes (run : SortedRun T) (item : T) : Prop := ∀ last ∈ run.items.getLast?, Apart last item

lemma sweep_cons_of_takes {run : SortedRun T} {item : T} (h : run.Takes item) (rest : List T) :
    run.sweep (item :: rest) = (run.pushItem item).sweep rest := by
  rw [sweep]
  split
  · rename_i last hlast
    have hover : overlap last item = false := h last hlast
    simp [hover]
  · rfl

lemma sweep_cons_of_not_takes {run : SortedRun T} {item : T} (h : ¬ run.Takes item)
    (rest : List T) :
    run.sweep (item :: rest) = ((run.sweep rest).1, item :: (run.sweep rest).2) := by
  simp only [Takes, Apart, not_forall, Bool.not_eq_false, exists_prop] at h
  obtain ⟨last, hlast, hover⟩ := h
  rw [Option.mem_def] at hlast
  rw [sweep, hlast]
  simp [hover]

/-- One sweep: the run grows by some of the items, in their order, and the others are left over
in their order; no item is lost or repeated. -/
lemma sweep_spec (run : SortedRun T) (items : List T) :
    ∃ taken, (run.sweep items).1.items = run.items ++ taken ∧ taken.Sublist items ∧
      (run.sweep items).2.Sublist items ∧ (taken ++ (run.sweep items).2).Perm items := by
  induction items generalizing run with
  | nil => exact ⟨[], by simp [sweep]⟩
  | cons item rest ih =>
    by_cases htakes : run.Takes item
    · obtain ⟨taken, hrun, htaken, hleft, hperm⟩ := ih (run.pushItem item)
      rw [sweep_cons_of_takes htakes]
      refine ⟨item :: taken, ?_, htaken.cons_cons item, hleft.cons item, hperm.cons item⟩
      rw [hrun]
      simp [pushItem]
    · obtain ⟨taken, hrun, htaken, hleft, hperm⟩ := ih run
      rw [sweep_cons_of_not_takes htakes]
      exact ⟨taken, hrun, htaken.cons item, hleft.cons_cons item,
        List.perm_middle.trans (hperm.cons item)⟩

/-- A sweep only appends an item that does not overlap the run's last item. -/
lemma chain_sweep {run : SortedRun T} (h : run.items.IsChain Apart) (items : List T) :
    (run.sweep items).1.items.IsChain Apart := by
  induction items generalizing run with
  | nil => exact h
  | cons item rest ih =>
    by_cases htakes : run.Takes item
    · rw [sweep_cons_of_takes htakes]
      apply ih
      rw [pushItem, List.isChain_append]
      exact ⟨h, List.isChain_singleton _, fun last hlast y hy => by
        simp only [List.head?_cons, Option.mem_def, Option.some.injEq] at hy
        exact hy ▸ htakes last hlast⟩
    · rw [sweep_cons_of_not_takes htakes]
      exact ih h

/-- Of two items in `(start asc, end desc)` order, the second not a single point, the first
ends where or before the second starts when they do not overlap. -/
lemma end_le_start_of_apart {a b : T} (hle : SortLe a b) (hb : (range b).1 < (range b).2)
    (h : Apart a b) : (range a).2 ≤ (range b).1 := by
  have hstart : (range a).1 ≤ (range b).1 := by
    rcases hle with hlt | ⟨heq, -⟩
    · exact hlt.le
    · exact heq.le
  simp only [Apart, overlap, decide_eq_false_iff_not, not_lt, max_eq_right hstart,
    min_le_iff] at h
  rcases h with h | h
  · exact h
  · exact absurd h (not_le.mpr hb)

/-- When no item is a single point, a run whose neighbours do not overlap is a sorted run: no two
of its items overlap. -/
lemma pairwise_apart {l : List T} (hsorted : l.Pairwise SortLe)
    (hstrict : ∀ t ∈ l, (range t).1 < (range t).2) (hchain : l.IsChain Apart) :
    l.Pairwise Apart := by
  -- each item ends where or before every later item starts
  have hends : l.Pairwise fun a b => (range a).2 ≤ (range b).1 := by
    induction l with
    | nil => exact .nil
    | cons a l ih =>
      have htail := ih hsorted.of_cons (fun t ht => hstrict t (.tail a ht)) hchain.tail
      refine .cons (fun b hb => ?_) htail
      obtain ⟨c, l', rfl⟩ := List.exists_cons_of_ne_nil (List.ne_nil_of_mem hb)
      have hac : (range a).2 ≤ (range c).1 :=
        end_le_start_of_apart (List.rel_of_pairwise_cons hsorted (.head _))
          (hstrict c (.tail a (.head _))) (List.isChain_cons_cons.mp hchain).1
      rcases List.mem_cons.mp hb with rfl | hb'
      · exact hac
      · have hcb := List.rel_of_pairwise_cons htail hb'
        have hc := hstrict c (.tail a (.head _))
        exact hac.trans (hc.le.trans hcb)
  refine hends.imp fun {a b} h => ?_
  simp only [Apart, overlap, decide_eq_false_iff_not, not_lt]
  exact (min_le_left _ _).trans (h.trans (le_max_right _ _))

/-- A sweep of an empty run takes the first item, so it leaves fewer items than it was given. -/
lemma length_sweep_empty_lt (item : T) (rest : List T) :
    (empty.sweep (item :: rest)).2.length < (item :: rest).length := by
  obtain ⟨-, -, -, hleft, -⟩ := sweep_spec (empty.pushItem item) rest
  have hsweep : empty.sweep (item :: rest) = (empty.pushItem item).sweep rest :=
    sweep_cons_of_takes (fun last hlast => by simp [empty] at hlast) rest
  rw [hsweep, List.length_cons]
  exact Nat.lt_succ_of_le hleft.length_le

end SortedRun

open SortedRun in
/-- The loop with enough sweeps: the runs hold the items between them, each run a sublist of
the items in which no item overlaps the one before it. -/
lemma findSortedRunsLoop_spec [Item T B] :
    ∀ (n : ℕ) (items : List T), items.length ≤ n →
      ((findSortedRunsLoop n items).flatMap SortedRun.items).Perm items ∧
        ∀ run ∈ findSortedRunsLoop n items, run.items.Sublist items ∧ run.items.IsChain Apart
  | 0, items, h => by
    rw [List.eq_nil_of_length_eq_zero (Nat.le_zero.mp h)]
    simp [findSortedRunsLoop]
  | _ + 1, [], _ => by simp [findSortedRunsLoop]
  | n + 1, item :: rest, h => by
    obtain ⟨taken, hrun, htaken, hleft, hperm⟩ := sweep_spec empty (item :: rest)
    have hlen := length_sweep_empty_lt item rest
    obtain ⟨ihperm, ihruns⟩ := findSortedRunsLoop_spec n (empty.sweep (item :: rest)).2
      (by simp only [List.length_cons] at h hlen; omega)
    have hchain : (empty.sweep (item :: rest)).1.items.IsChain Apart :=
      chain_sweep List.IsChain.nil (item :: rest)
    rw [hrun] at hchain
    refine ⟨?_, ?_⟩
    · simp only [findSortedRunsLoop, List.flatMap_cons, hrun]
      exact (ihperm.append_left taken).trans hperm
    · simp only [findSortedRunsLoop, List.mem_cons, forall_eq_or_imp, hrun]
      refine ⟨⟨htaken, hchain⟩, fun run hmem => ?_⟩
      · obtain ⟨hsub, hchain⟩ := ihruns run hmem
        exact ⟨hsub.trans hleft, hchain⟩

/-- What `find_sorted_runs` returns: runs that hold the items between them, each sorted by
`(start asc, end desc)`, and in each no item overlaps the one before it. -/
theorem findSortedRuns_spec [Item T B] (items : List T) :
    ((findSortedRuns items).flatMap SortedRun.items).Perm items ∧
      ∀ run ∈ findSortedRuns items,
        run.items.Pairwise SortLe ∧ run.items.IsChain SortedRun.Apart := by
  unfold findSortedRuns
  split
  · rename_i h
    simp [h]
  · have hsorted := List.pairwise_insertionSort SortLe items
    obtain ⟨hperm, hruns⟩ := findSortedRunsLoop_spec items.length (sortRangedItems items)
      (by simp [sortRangedItems])
    refine ⟨hperm.trans (List.perm_insertionSort SortLe items), fun run hrun => ?_⟩
    obtain ⟨hsub, hchain⟩ := hruns run hrun
    exact ⟨hsorted.sublist hsub, hchain⟩

/-- When no item is a single point, every run `find_sorted_runs` returns is a sorted run. -/
theorem pairwise_apart_findSortedRuns [Item T B] {items : List T}
    (hstrict : ∀ t ∈ items, (range t).1 < (range t).2) :
    ∀ run ∈ findSortedRuns items, run.items.Pairwise SortedRun.Apart := by
  intro run hrun
  obtain ⟨hperm, hruns⟩ := findSortedRuns_spec items
  obtain ⟨hsorted, hchain⟩ := hruns run hrun
  have hmem : ∀ t ∈ run.items, t ∈ items := fun t ht =>
    hperm.subset (List.mem_flatMap.mpr ⟨run, hrun, ht⟩)
  exact SortedRun.pairwise_apart hsorted (fun t ht => hstrict t (hmem t ht)) hchain

/-! ## `find_overlapping_items` and `reduce_runs` -/

section Overlapping

variable [Item T B]

/-- The first loop inside `find_overlapping_items`: how many right items, from the current
one, end before the left item starts. -/
def skipEnded (lhsStart : B) : List T → ℕ
  | [] => 0
  | rhs :: rest => if (range rhs).2 < lhsStart then skipEnded lhsStart rest + 1 else 0

/-- Selects an item, by its index among both runs, unless it is selected already. -/
def select (idx : ℕ) (item : T) (acc : List ℕ × List T) : List ℕ × List T :=
  if idx ∈ acc.1 then acc else (idx :: acc.1, acc.2 ++ [item])

/-- The second loop inside `find_overlapping_items`: the right items from the current one
(paired with their index) until one starts after the left item ends. -/
def scanRight (lhs : T) (lhsIdx offset : ℕ) :
    List (T × ℕ) → List ℕ × List T → List ℕ × List T
  | [], acc => acc
  | (rhs, j) :: rest, acc =>
    if (range lhs).2 < (range rhs).1 then acc
    else
      let acc := if overlapInclusive lhs rhs then select (offset + j) rhs (select lhsIdx lhs acc)
        else acc
      scanRight lhs lhsIdx offset rest acc

/-- `find_overlapping_items`: the items of `l` and of `r` that overlap an item of the other
run (inclusively), in the order found.  With an empty run the previous result is kept. -/
def findOverlappingItems (l r result : List T) : List T :=
  if l = [] ∨ r = [] then result
  else
    let l := sortRangedItems l
    let r := (sortRangedItems r).zipIdx
    let step (acc : ℕ × (List ℕ × List T)) (lhs : T × ℕ) : ℕ × (List ℕ × List T) :=
      let rIdx := acc.1 + skipEnded (range lhs.1).1 ((r.drop acc.1).map Prod.fst)
      (rIdx, scanRight lhs.1 lhs.2 l.length (r.drop rIdx) acc.2)
    (l.zipIdx.foldl step (0, ([], []))).2.2

/-- `usize::MAX`, the initial penalty of `reduce_runs`. -/
def usizeMax : ℕ := 18446744073709551615

/-- `reduce_runs`: over every pair of the (at most 100) smallest runs, the overlapping items
of the pair with the least total size; ties keep the first pair found. -/
def reduceRuns (runs : List (SortedRun T)) : List T :=
  let runs := runs.insertionSort (fun a b => a.size ≤ b.size)
  let probeEnd := min runs.length 100
  let pairs := (List.range probeEnd).flatMap fun i =>
    ((List.range probeEnd).filter (i < ·)).map (i, ·)
  let step (acc : ℕ × List T × List T) (p : ℕ × ℕ) : ℕ × List T × List T :=
    let (minPenalty, files, tempFiles) := acc
    let tempFiles := findOverlappingItems ((runs.getD p.1 SortedRun.empty).items)
      ((runs.getD p.2 SortedRun.empty).items) tempFiles
    let penalty := (tempFiles.map Item.size).sum
    if penalty < minPenalty then (penalty, tempFiles, tempFiles) else (minPenalty, files, tempFiles)
  (pairs.foldl step (usizeMax, [], [])).2.1

end Overlapping

/-! ## `merge_seq_files` -/

section MergeSeqFiles

variable [Item T B]

/-- `DEFAULT_MAX_OUTPUT_SIZE`: 2 GiB. -/
def defaultMaxOutputSize : ℕ := 2147483648

/-- The score `merge_seq_files` gives a contiguous group of files. -/
def groupScore (group : List T) (numFiles targetSize : ℕ) : Float :=
  let totalSize := (group.map Item.size).sum
  let largestFileSize := (group.map Item.size).foldl max 0
  let amplificationFactor := largestFileSize.toFloat / totalSize.toFloat
  let fileReduction := group.length - 1
  let fileReductionScore := fileReduction.toFloat / numFiles.toFloat
  let ampFactorScore := (1.0 - amplificationFactor) * 1.5
  let sizeEfficiency := min (totalSize.toFloat / targetSize.toFloat) 1.0
  fileReductionScore + ampFactorScore + sizeEfficiency

/-- `merge_seq_files`: the contiguous group of at least two of the first 100 files, of total
size within the target, with the best score; iterating from the last start and end, ties go
to the group found last, that is to older files. -/
def mergeSeqFiles (inputFiles : List T) (maxFileSize : Option ℕ) : List T :=
  if inputFiles.length ≤ 1 then []
  else
    let files := inputFiles.take 100
    let targetSize := match maxFileSize with
      | some size => size
      | none =>
        let totalSize := (files.map Item.size).sum
        min (totalSize.toFloat / files.length.toFloat * 1.5).toUInt64.toNat defaultMaxOutputSize
    let groups := (List.range files.length).reverse.flatMap fun startIdx =>
      ((List.range files.length).reverse.filter (startIdx < ·)).map fun endIdx =>
        (files.drop startIdx).take (endIdx - startIdx + 1)
    let step (best : List T × Float) (group : List T) : List T × Float :=
      if (group.map Item.size).sum > targetSize then best
      else
        let score := groupScore group files.length targetSize
        if score ≥ best.2 then (group, score) else best
    (groups.foldl step ([], -(1.0 / 0.0))).1

end MergeSeqFiles

end Greptime
