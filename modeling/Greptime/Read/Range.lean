import Greptime.Compaction.Twcs
import Greptime.Query.WindowSort
import Greptime.Foundations.Grouping

/-!
# The ranges of a sequential scan (`mito2::read::range`)

A sequential scan reads its memtables and files range by range.  `seq_scan_ranges` makes one
range of each memtable that holds rows and of each file, every one reading all the row groups
of its source; it sorts them by start (and by end, descending), merges each range into the
group in progress while it overlaps the group's hull, and last splits every group of a single
source with more than one row group into one range per row group.  The windowed sort then reads
these ranges as `PartitionRange`s, whose end is the hull's inclusive end plus one.

`seqScanRanges_spec` says what comes out, for every input: each source is read once, as a
whole or row group by row group; the starts do not decrease; the ranges of different groups do
not overlap; a range's hull holds the time ranges of its sources; and the partition ranges pass
the windowed sort's monotonicity check and, where no source ends at `i64::MAX`, hold every
timestamp of their sources.

The sort is `sort_unstable_by`; the model sorts by insertion.  Every lemma about the groups
holds for any order of the ranges by start (`Grouping.run_spec` over a sorted permutation), so
nothing depends on how the sort orders ranges with the same bounds.
-/

namespace Greptime

/-- `ALL_ROW_GROUPS`: a row group index that reads every row group of its source. -/
def allRowGroups : ℤ := -1

/-- `SourceIndex`: a memtable or a file, with its number of row groups (0 when unknown). -/
structure SourceIndex where
  index : ℕ
  numRowGroups : ℕ
  deriving DecidableEq

/-- `RowGroupIndex`: a row group of a memtable or a file; `ALL_ROW_GROUPS` for all of them. -/
structure RowGroupIndex where
  index : ℕ
  rowGroupIndex : ℤ
  deriving DecidableEq

/-- `RangeMeta`: the inclusive time range of a range, its sources, the row groups it scans and
its estimated number of rows. -/
structure RangeMeta where
  timeRange : I64 × I64
  indices : List SourceIndex
  rowGroupIndices : List RowGroupIndex
  numRows : ℕ
  deriving DecidableEq

/-- The data of `MemtableStats` a scan reads: the inclusive time range, `None` exactly when the
memtable is empty, the number of rows and the number of ranges. -/
structure MemtableStats where
  timeRange : Option (I64 × I64)
  numRows : ℕ
  numRanges : ℕ
  deriving DecidableEq

/-- A file of a scan: its handle and `meta.num_row_groups`. -/
structure ScanFile extends FileHandle where
  numRowGroups : ℕ
  deriving DecidableEq

/-- `TimeSeriesDistribution`. -/
inductive TimeSeriesDistribution
  | timeWindowed
  | perSeries
  deriving DecidableEq

/-- The data of `ScanInput` the ranges are made of: the statistics of its memtables, its files
and the distribution the request asks for. -/
structure ScanInput where
  memtables : List MemtableStats
  files : List ScanFile
  distribution : Option TimeSeriesDistribution
  deriving DecidableEq

namespace RangeMeta

/-- `RangeMeta::new_partition_range`: the end is the inclusive end plus one, or the end itself
at `i64::MAX`.  The row count and the identifier are not read by the windowed sort. -/
def newPartitionRange (self : RangeMeta) : WindowSort.PartitionRange :=
  ⟨self.timeRange.1.val,
    ((I64.checkedAdd self.timeRange.2 (I64.wrap 1)).getD self.timeRange.2).val⟩

/-- `RangeMeta::overlaps`. -/
def overlaps (self other : RangeMeta) : Bool := Greptime.overlaps self.timeRange other.timeRange

/-- `RangeMeta::merge`: the hull of the two time ranges, and the sources and row groups of
both. -/
def merge (self other : RangeMeta) : RangeMeta :=
  ⟨(min self.timeRange.1 other.timeRange.1, max self.timeRange.2 other.timeRange.2),
    self.indices ++ other.indices, self.rowGroupIndices ++ other.rowGroupIndices,
    self.numRows + other.numRows⟩

/-- `RangeMeta::maybe_split`: a range of one source with more than one row group
(`can_split_preserve_order`) becomes one range per row group, all with its time range. -/
def maybeSplit (self : RangeMeta) (output : List RangeMeta) : List RangeMeta :=
  match self.indices with
  | [source] =>
    if 1 < source.numRowGroups then
      output ++ (List.range source.numRowGroups).map fun rowGroupIndex : ℕ =>
        ⟨self.timeRange, self.indices, [⟨source.index, (rowGroupIndex : ℤ)⟩],
          self.numRows / source.numRowGroups⟩
    else output ++ [self]
  | _ => output ++ [self]

/-- The range `push_seq_mem_ranges` pushes for the memtable at position `i`: none for an empty
memtable, else one range that reads all of it. -/
def seqMemRange (stats : MemtableStats) (i : ℕ) : Option RangeMeta :=
  stats.timeRange.map fun timeRange =>
    ⟨timeRange, [⟨i, stats.numRanges⟩], [⟨i, allRowGroups⟩], stats.numRows⟩

/-- `RangeMeta::push_seq_mem_ranges`: a range for each memtable with rows, indexed by its
position. -/
def pushSeqMemRanges (memtables : List MemtableStats) (ranges : List RangeMeta) :
    List RangeMeta :=
  ranges ++ memtables.zipIdx.filterMap fun (stats, i) => seqMemRange stats i

/-- The range `push_seq_file_ranges` pushes for the file at index `fileIndex`: one range that
reads all of it. -/
def seqFileRange (file : ScanFile) (fileIndex : ℕ) : RangeMeta :=
  ⟨file.timeRange, [⟨fileIndex, file.numRowGroups⟩], [⟨fileIndex, allRowGroups⟩], file.numRows⟩

/-- `RangeMeta::push_seq_file_ranges`: a range for each file, indexed after the memtables. -/
def pushSeqFileRanges (numMemtables : ℕ) (files : List ScanFile) (ranges : List RangeMeta) :
    List RangeMeta :=
  ranges ++ (files.zipIdx numMemtables).map fun (file, fileIndex) => seqFileRange file fileIndex

end RangeMeta

open RangeMeta

/-- The comparator of `group_ranges_for_seq_scan`'s sort: start ascending, then end
descending. -/
def seqScanCmp (a b : RangeMeta) : Ordering :=
  (compare a.timeRange.1 b.timeRange.1).then (compare b.timeRange.2 a.timeRange.2)

/-- `a` may come before `b` in the sorted ranges. -/
def SortedBefore (a b : RangeMeta) : Prop := seqScanCmp a b ≠ .gt

instance : DecidableRel SortedBefore := fun a b => by unfold SortedBefore; infer_instance

/-- The loop of `group_ranges_for_seq_scan` over `(exclusive_ranges, range_in_progress)`. -/
def groupStep (acc : List RangeMeta × Option RangeMeta) (range : RangeMeta) :
    List RangeMeta × Option RangeMeta :=
  match acc.2 with
  | none => (acc.1, some range)
  | some prevRange =>
    if prevRange.overlaps range then (acc.1, some (prevRange.merge range))
    else (acc.1 ++ [prevRange], some range)

/-- `group_ranges_for_seq_scan`. -/
def groupRangesForSeqScan (ranges : List RangeMeta) : List RangeMeta :=
  if ranges.isEmpty then ranges
  else
    let acc := (ranges.insertionSort SortedBefore).foldl groupStep ([], none)
    acc.1 ++ acc.2.toList

/-- `maybe_split_ranges_for_seq_scan`. -/
def maybeSplitRangesForSeqScan (ranges : List RangeMeta) : List RangeMeta :=
  ranges.foldl (fun newRanges range => range.maybeSplit newRanges) []

/-- The ranges `seq_scan_ranges` pushes before it groups them: the memtables', then the
files'. -/
def seqSourceRanges (input : ScanInput) : List RangeMeta :=
  pushSeqFileRanges input.memtables.length input.files (pushSeqMemRanges input.memtables [])

/-- `RangeMeta::seq_scan_ranges`.  Compaction and the per-series distribution do not split. -/
def seqScanRanges (input : ScanInput) (compaction : Bool) : List RangeMeta :=
  let ranges := groupRangesForSeqScan (seqSourceRanges input)
  if compaction || input.distribution == some .perSeries then ranges
  else maybeSplitRangesForSeqScan ranges

/-! ## The sources -/

/-- The source at position `idx` of a scan: the time range and the number of row groups of a
memtable with rows or of a file, at the positions `seq_scan_ranges` gives them. -/
def ScanInput.source (input : ScanInput) (idx : ℕ) : Option ((I64 × I64) × ℕ) :=
  if idx < input.memtables.length then
    input.memtables[idx]?.bind fun stats => stats.timeRange.map fun tr => (tr, stats.numRanges)
  else
    input.files[idx - input.memtables.length]?.map fun file => (file.timeRange, file.numRowGroups)

/-- A range that reads one source whole, as `seq_scan_ranges` pushes them. -/
def IsSourceRange (input : ScanInput) (r : RangeMeta) : Prop :=
  ∃ idx n, r.indices = [⟨idx, n⟩] ∧ r.rowGroupIndices = [⟨idx, allRowGroups⟩] ∧
    input.source idx = some (r.timeRange, n)

/-- The sources of the ranges made of the elements of `l` from position `k` on, down to the
source `idx`: the one of its element, when that makes a range. -/
lemma filter_indices_zipIdx {α : Type} (f : α → ℕ → Option RangeMeta) (num : α → Option ℕ)
    (hf : ∀ a i, (f a i).map indices = (num a).map fun n => [⟨i, n⟩]) (idx : ℕ) :
    ∀ (l : List α) (k : ℕ),
      (((l.zipIdx k).filterMap fun p => f p.1 p.2).flatMap indices).filter (·.index == idx) =
        (if k ≤ idx then (l[idx - k]?.bind num).map (SourceIndex.mk idx) else none).toList
  | [], k => by simp
  | a :: l, k => by
    -- the element at `k` gives its source when that is `idx`, the rest of the list the others
    have hhead : ((f a k).toList.flatMap indices).filter (·.index == idx) =
        (if k = idx then (num a).map (SourceIndex.mk idx) else none).toList := by
      have hfa := hf a k
      cases hk : f a k with
      | none =>
        rw [hk, Option.map_none, eq_comm, Option.map_eq_none_iff] at hfa
        simp [hfa]
      | some r =>
        rw [hk, Option.map_some, eq_comm, Option.map_eq_some_iff] at hfa
        obtain ⟨n, hn, hr⟩ := hfa
        by_cases hki : k = idx <;> simp [hn, ← hr, hki]
    have hsplit : (if k ≤ idx then ((a :: l)[idx - k]?.bind num).map (SourceIndex.mk idx)
          else none).toList =
        (if k = idx then (num a).map (SourceIndex.mk idx) else none).toList ++
          (if k + 1 ≤ idx then (l[idx - (k + 1)]?.bind num).map (SourceIndex.mk idx)
            else none).toList := by
      rcases Nat.lt_trichotomy idx k with hlt | rfl | hgt
      · simp [Nat.not_le.mpr hlt, Nat.ne_of_gt hlt, Nat.not_le.mpr (Nat.lt_succ_of_lt hlt)]
      · simp
      · rw [show idx - k = idx - (k + 1) + 1 by omega]
        simp [hgt.le, Nat.ne_of_lt hgt, Nat.succ_le_of_lt hgt]
    have hcons : ((a :: l).zipIdx k).filterMap (fun p => f p.1 p.2) =
        (f a k).toList ++ (l.zipIdx (k + 1)).filterMap fun p => f p.1 p.2 := by
      rw [List.zipIdx_cons, List.filterMap_cons]
      cases f a k <;> rfl
    rw [hsplit, ← hhead, ← filter_indices_zipIdx f num hf idx l (k + 1), hcons,
      List.flatMap_append, List.filter_append]

lemma seqSourceRanges_eq (input : ScanInput) :
    seqSourceRanges input =
      (input.memtables.zipIdx.filterMap fun p => seqMemRange p.1 p.2) ++
        (input.files.zipIdx input.memtables.length).filterMap fun p =>
          some (seqFileRange p.1 p.2) := by
  rw [seqSourceRanges, pushSeqFileRanges, pushSeqMemRanges, List.nil_append,
    ← List.filterMap_eq_map]
  rfl

/-- The sources of the ranges `seq_scan_ranges` pushes, down to one: the source `idx` once if
the scan has it, else nothing. -/
lemma filter_indices_seqSourceRanges (input : ScanInput) (idx : ℕ) :
    ((seqSourceRanges input).flatMap indices).filter (·.index == idx) =
      ((input.source idx).map fun p => SourceIndex.mk idx p.2).toList := by
  have hmem := filter_indices_zipIdx (fun stats i => seqMemRange stats i)
    (fun stats => stats.timeRange.map fun _ => stats.numRanges)
    (fun stats i => by cases h : stats.timeRange <;> simp [seqMemRange, h]) idx input.memtables 0
  have hfile := filter_indices_zipIdx (fun file i => some (seqFileRange file i))
    (fun file => some file.numRowGroups) (fun _ _ => rfl) idx input.files input.memtables.length
  rw [seqSourceRanges_eq, List.flatMap_append, List.filter_append, hmem, hfile, ScanInput.source]
  simp only [Nat.zero_le, if_true, Nat.sub_zero]
  -- the memtables hold the positions below their number, the files those from it on
  by_cases h : idx < input.memtables.length
  · rw [if_neg (Nat.not_le.mpr h), if_pos h, Option.toList_none, List.append_nil]
    cases input.memtables[idx]? with
    | none => rfl
    | some stats => cases h : stats.timeRange <;> simp [h]
  · rw [if_pos (Nat.le_of_not_lt h), if_neg h, List.getElem?_eq_none (Nat.le_of_not_lt h)]
    cases input.files[idx - input.memtables.length]? <;> rfl

/-- Every range `seq_scan_ranges` pushes reads one source whole. -/
lemma isSourceRange_of_mem_seqSourceRanges {input : ScanInput} {r : RangeMeta}
    (h : r ∈ seqSourceRanges input) : IsSourceRange input r := by
  rw [seqSourceRanges_eq, List.mem_append, List.mem_filterMap, List.mem_filterMap] at h
  rcases h with ⟨⟨stats, i⟩, hi, hr⟩ | ⟨⟨file, i⟩, hi, hr⟩
  · rw [List.mem_zipIdx_iff_le_and_getElem?_sub] at hi
    obtain ⟨-, hget⟩ := hi
    simp only [Nat.sub_zero] at hget
    have hlt : i < input.memtables.length := (List.getElem?_eq_some_iff.mp hget).1
    cases htr : stats.timeRange with
    | none => simp [seqMemRange, htr] at hr
    | some tr =>
      simp only [seqMemRange, htr, Option.map_some, Option.some.injEq] at hr
      subst hr
      refine ⟨i, stats.numRanges, rfl, rfl, ?_⟩
      rw [ScanInput.source, if_pos hlt, hget]
      simp [htr]
  · rw [List.mem_zipIdx_iff_le_and_getElem?_sub] at hi
    obtain ⟨hle, hget⟩ := hi
    simp only [Option.some.injEq] at hr
    subst hr
    exact ⟨i, file.numRowGroups, rfl, rfl,
      by simp [ScanInput.source, Nat.not_lt.mpr hle, hget, seqFileRange]⟩

/-! ## The sort and the walk -/

lemma sortedBefore_iff {a b : RangeMeta} :
    SortedBefore a b ↔ a.timeRange.1 < b.timeRange.1 ∨
      a.timeRange.1 = b.timeRange.1 ∧ b.timeRange.2 ≤ a.timeRange.2 := by
  unfold SortedBefore seqScanCmp
  rcases lt_trichotomy a.timeRange.1 b.timeRange.1 with h | h | h
  · simp [compare_lt_iff_lt.mpr h, h]
  · rw [compare_eq_iff_eq.mpr h, Ordering.eq_then, Ne, compare_gt_iff_gt, not_lt]
    simp [h]
  · simp [compare_gt_iff_gt.mpr h, not_lt.mpr h.le, h.ne']

instance : Std.Total SortedBefore where
  total a b := by
    simp only [sortedBefore_iff]
    exact Lex.total_asc_desc a.timeRange.1 b.timeRange.1 a.timeRange.2 b.timeRange.2

instance : IsTrans RangeMeta SortedBefore where
  trans _ _ _ hab hbc :=
    sortedBefore_iff.mpr (Lex.trans_asc_desc (sortedBefore_iff.mp hab) (sortedBefore_iff.mp hbc))

/-- The sorted ranges come by start. -/
lemma pairwise_start_insertionSort (ranges : List RangeMeta) :
    (ranges.insertionSort SortedBefore).Pairwise fun a b => a.timeRange.1 ≤ b.timeRange.1 := by
  refine (List.pairwise_insertionSort SortedBefore ranges).imp fun h => ?_
  rcases sortedBefore_iff.mp h with h | ⟨h, -⟩
  · exact h.le
  · exact h.le

/-- The loop of `group_ranges_for_seq_scan` is the library's walk: a range joins the group in
progress when it overlaps the group's hull. -/
lemma groupStep_eq : groupStep = Grouping.step id merge RangeMeta.overlaps := by
  funext acc range
  rcases acc with ⟨done, _ | prevRange⟩ <;> rfl

lemma groupRangesForSeqScan_eq (ranges : List RangeMeta) :
    groupRangesForSeqScan ranges =
      Grouping.run id merge RangeMeta.overlaps (ranges.insertionSort SortedBefore) := by
  unfold groupRangesForSeqScan
  split_ifs with h
  · rw [List.isEmpty_iff.mp h]
    rfl
  · rw [groupStep_eq]
    rfl

/-! ## The hull of a group -/

lemma foldl_merge_indices (rest : List RangeMeta) :
    ∀ x, (rest.foldl merge x).indices = x.indices ++ rest.flatMap indices := by
  induction rest with
  | nil => intro x; simp
  | cons y rest ih => intro x; simp [ih, merge]

lemma foldl_merge_rowGroupIndices (rest : List RangeMeta) :
    ∀ x, (rest.foldl merge x).rowGroupIndices =
      x.rowGroupIndices ++ rest.flatMap rowGroupIndices := by
  induction rest with
  | nil => intro x; simp
  | cons y rest ih => intro x; simp [ih, merge]

/-- Merged in order of start, the hull starts where the first range does. -/
lemma foldl_merge_start (rest : List RangeMeta) :
    ∀ x, (∀ y ∈ rest, x.timeRange.1 ≤ y.timeRange.1) →
      (rest.foldl merge x).timeRange.1 = x.timeRange.1 := by
  induction rest with
  | nil => intro x _; rfl
  | cons y rest ih =>
    intro x h
    have hxy : (merge x y).timeRange.1 = x.timeRange.1 := min_eq_left (h y List.mem_cons_self)
    rw [List.foldl_cons, ih _ fun z hz => hxy ▸ h z (List.mem_cons_of_mem _ hz), hxy]

lemma le_foldl_merge_end (rest : List RangeMeta) :
    ∀ x, ∀ y ∈ x :: rest, y.timeRange.2 ≤ (rest.foldl merge x).timeRange.2 := by
  induction rest with
  | nil => intro x y hy; rw [List.mem_singleton.mp hy]; rfl
  | cons z rest ih =>
    intro x y hy
    have hmerged := ih (merge x z) (merge x z) List.mem_cons_self
    rcases List.mem_cons.mp hy with rfl | hy
    · exact (le_max_left _ _).trans hmerged
    rcases List.mem_cons.mp hy with rfl | hy
    · exact (le_max_right _ _).trans hmerged
    · exact ih (merge x z) y (List.mem_cons_of_mem _ hy)

lemma exists_foldl_merge_end (rest : List RangeMeta) :
    ∀ x, ∃ y ∈ x :: rest, (rest.foldl merge x).timeRange.2 = y.timeRange.2 := by
  induction rest with
  | nil => intro x; exact ⟨x, List.mem_cons_self, rfl⟩
  | cons z rest ih =>
    intro x
    obtain ⟨y, hy, heq⟩ := ih (merge x z)
    rcases List.mem_cons.mp hy with rfl | hy
    · -- the hull ends where `merge` put it, at the end of `x` or of `z`
      rcases max_choice x.timeRange.2 z.timeRange.2 with h | h
      · exact ⟨x, List.mem_cons_self, heq.trans h⟩
      · exact ⟨z, List.mem_cons_of_mem _ List.mem_cons_self, heq.trans h⟩
    · exact ⟨y, List.mem_cons_of_mem _ (List.mem_cons_of_mem _ hy), heq⟩

/-- What `merge` makes of a group of ranges: a hull from the smallest start to the largest end,
both bounds of ranges of the group, reading what the group reads. -/
structure HullOf (g : List RangeMeta) (r : RangeMeta) : Prop where
  start_le : ∀ y ∈ g, r.timeRange.1 ≤ y.timeRange.1
  start_mem : ∃ y ∈ g, r.timeRange.1 = y.timeRange.1
  end_le : ∀ y ∈ g, y.timeRange.2 ≤ r.timeRange.2
  end_mem : ∃ y ∈ g, r.timeRange.2 = y.timeRange.2
  indices_eq : r.indices = g.flatMap indices
  rowGroupIndices_eq : r.rowGroupIndices = g.flatMap rowGroupIndices

/-- The summary of a non-empty group sorted by start is its hull. -/
lemma hullOf_summary {g : List RangeMeta} (hne : g ≠ [])
    (hsorted : g.Pairwise fun a b => a.timeRange.1 ≤ b.timeRange.1) :
    ∃ r, Grouping.summary id merge g = some r ∧ HullOf g r := by
  obtain ⟨x, rest, rfl⟩ := List.exists_cons_of_ne_nil hne
  have hx := (List.pairwise_cons.mp hsorted).1
  refine ⟨rest.foldl merge x, rfl, ⟨fun y hy => ?_, ⟨x, List.mem_cons_self, ?_⟩,
    le_foldl_merge_end rest x, exists_foldl_merge_end rest x, ?_, ?_⟩⟩
  · rw [foldl_merge_start rest x hx]
    rcases List.mem_cons.mp hy with rfl | hy
    · exact le_rfl
    · exact hx y hy
  · exact foldl_merge_start rest x hx
  · simp [foldl_merge_indices]
  · simp [foldl_merge_rowGroupIndices]

/-! ## The groups -/

/-- What `group_ranges_for_seq_scan` returns for the ranges of a scan: hulls by start and apart
from each other, each reading all row groups of its sources, together reading every source
once, each holding the time ranges of its sources and ending where one of them ends. -/
structure GroupedRanges (input : ScanInput) (hulls : List RangeMeta) : Prop where
  pairwise : hulls.Pairwise fun r r' =>
    r.timeRange.1 ≤ r'.timeRange.1 ∧ Greptime.overlaps r.timeRange r'.timeRange = false
  rowGroupIndices_eq : ∀ r ∈ hulls,
    r.rowGroupIndices = r.indices.map fun s => ⟨s.index, allRowGroups⟩
  filter_indices : ∀ idx, (hulls.flatMap indices).filter (·.index == idx) =
    ((input.source idx).map fun p => SourceIndex.mk idx p.2).toList
  covers : ∀ r ∈ hulls, ∀ s ∈ r.indices, ∃ tr, input.source s.index = some (tr, s.numRowGroups) ∧
    r.timeRange.1 ≤ tr.1 ∧ tr.2 ≤ r.timeRange.2
  end_eq : ∀ r ∈ hulls, ∃ idx tr n, input.source idx = some (tr, n) ∧ r.timeRange.2 = tr.2

section Groups

variable {sorted : List RangeMeta} {groups : List (List RangeMeta)}

/-- The hulls of the groups the walk cuts a list sorted by start into come by start, each
ending before the next one starts. -/
lemma pairwise_hulls (hgrouped : Grouping.Grouped id merge RangeMeta.overlaps sorted groups)
    (hsorted : sorted.Pairwise fun a b => a.timeRange.1 ≤ b.timeRange.1) :
    (groups.filterMap (Grouping.summary id merge)).Pairwise fun r r' =>
      r.timeRange.1 ≤ r'.timeRange.1 ∧ Greptime.overlaps r.timeRange r'.timeRange = false := by
  rw [← hgrouped.flatten_eq, List.pairwise_flatten] at hsorted
  obtain ⟨hwithin, hacross⟩ := hsorted
  have hhull : ∀ g ∈ groups, ∃ r, Grouping.summary id merge g = some r ∧ HullOf g r :=
    fun g hg => hullOf_summary (hgrouped.ne_nil g hg) (hwithin g hg)
  -- a group's hull ends before every range of the groups after it starts
  have hbefore : groups.Pairwise fun g g' => ∀ r, Grouping.summary id merge g = some r →
      ∀ y ∈ g', r.timeRange.1 ≤ y.timeRange.1 ∧ r.timeRange.2 < y.timeRange.1 := by
    refine Grouping.pairwise_of_isChain hgrouped.cuts hacross ?_ ?_
    · intro g g' hg hg' hcut hle r hr y hy
      obtain ⟨x, rest, rfl⟩ := List.exists_cons_of_ne_nil (hgrouped.ne_nil g' hg')
      obtain ⟨r₀, hr₀, hullg⟩ := hhull g hg
      obtain rfl : r = r₀ := Option.some.inj (hr.symm.trans hr₀)
      obtain ⟨z, hz, hstart⟩ := hullg.start_mem
      have hrx : r.timeRange.1 ≤ x.timeRange.1 := hstart ▸ hle z hz x List.mem_cons_self
      have hend : r.timeRange.2 < x.timeRange.1 :=
        (overlaps_eq_false_iff_of_le hrx).mp (hcut r hr x rfl)
      have hxy : x.timeRange.1 ≤ y.timeRange.1 := by
        rcases List.mem_cons.mp hy with rfl | hy
        · exact le_rfl
        · exact List.rel_of_pairwise_cons (hwithin _ hg') hy
      exact ⟨hrx.trans hxy, hend.trans_le hxy⟩
    · intro g g' g'' hg' hR hS r hr y hy
      obtain ⟨x, rest, rfl⟩ := List.exists_cons_of_ne_nil (hgrouped.ne_nil g' hg')
      obtain ⟨h1, h2⟩ := hR r hr x List.mem_cons_self
      have hxy := hS x List.mem_cons_self y hy
      exact ⟨h1.trans hxy, h2.trans_le hxy⟩
  rw [List.pairwise_filterMap]
  refine hbefore.imp_of_mem fun {g g'} _ hg' h r hr r' hr' => ?_
  obtain ⟨r₀, hr₀, hullg'⟩ := hhull g' hg'
  obtain rfl : r' = r₀ := Option.some.inj (hr'.symm.trans hr₀)
  obtain ⟨y, hy, hstart⟩ := hullg'.start_mem
  obtain ⟨h1, h2⟩ := h r hr y hy
  rw [← hstart] at h1 h2
  exact ⟨h1, (overlaps_eq_false_iff_of_le h1).mpr h2⟩

/-- The hulls read the sources of their groups, in order. -/
lemma flatMap_indices_hulls (hne : ∀ g ∈ groups, g ≠ []) :
    (groups.filterMap (Grouping.summary id merge)).flatMap indices =
      groups.flatten.flatMap indices := by
  induction groups with
  | nil => rfl
  | cons g groups ih =>
    obtain ⟨x, rest, rfl⟩ := List.exists_cons_of_ne_nil (hne _ List.mem_cons_self)
    simp only [List.filterMap_cons, Grouping.summary, List.flatMap_cons, List.flatten_cons,
      List.flatMap_append]
    rw [ih fun g hg => hne g (List.mem_cons_of_mem _ hg), foldl_merge_indices]
    rfl

end Groups

/-- `group_ranges_for_seq_scan` on the ranges of a scan. -/
theorem groupRangesForSeqScan_spec (input : ScanInput) :
    GroupedRanges input (groupRangesForSeqScan (seqSourceRanges input)) := by
  have hperm := List.perm_insertionSort SortedBefore (seqSourceRanges input)
  have hsorted := pairwise_start_insertionSort (seqSourceRanges input)
  have hsource : ∀ y ∈ (seqSourceRanges input).insertionSort SortedBefore,
      IsSourceRange input y := fun y hy => isSourceRange_of_mem_seqSourceRanges (hperm.subset hy)
  obtain ⟨groups, hgrouped, hrun⟩ :=
    Grouping.run_spec id merge RangeMeta.overlaps ((seqSourceRanges input).insertionSort SortedBefore)
  have hwithin := (List.pairwise_flatten.mp (hgrouped.flatten_eq ▸ hsorted)).1
  -- every hull is the hull of a group of source ranges
  have hmem : ∀ r ∈ groups.filterMap (Grouping.summary id merge), ∃ g ∈ groups, HullOf g r ∧
      ∀ y ∈ g, IsSourceRange input y := by
    intro r hr
    obtain ⟨g, hg, hr⟩ := List.mem_filterMap.mp hr
    obtain ⟨r₀, hr₀, hull⟩ := hullOf_summary (hgrouped.ne_nil g hg) (hwithin g hg)
    obtain rfl : r = r₀ := Option.some.inj (hr.symm.trans hr₀)
    refine ⟨g, hg, hull, fun y hy => hsource y ?_⟩
    rw [← hgrouped.flatten_eq]
    exact List.mem_flatten_of_mem hg hy
  rw [groupRangesForSeqScan_eq, hrun]
  refine ⟨pairwise_hulls hgrouped hsorted, ?_, ?_, ?_, ?_⟩
  · intro r hr
    obtain ⟨g, -, hull, hg⟩ := hmem r hr
    rw [hull.rowGroupIndices_eq, hull.indices_eq, List.map_flatMap]
    refine List.flatMap_congr fun y hy => ?_
    obtain ⟨idx, n, hi, hrg, -⟩ := hg y hy
    rw [hi, hrg]
    rfl
  · intro idx
    have hfilter := (hperm.flatMap_right indices).filter (·.index == idx)
    rw [flatMap_indices_hulls hgrouped.ne_nil, hgrouped.flatten_eq]
    rw [filter_indices_seqSourceRanges] at hfilter
    cases h : input.source idx with
    | none => rw [h] at hfilter; exact List.perm_nil.mp hfilter
    | some p => rw [h] at hfilter; exact List.perm_singleton.mp hfilter
  · intro r hr s hs
    obtain ⟨g, -, hull, hg⟩ := hmem r hr
    rw [hull.indices_eq, List.mem_flatMap] at hs
    obtain ⟨y, hy, hs⟩ := hs
    obtain ⟨idx, n, hi, -, hsrc⟩ := hg y hy
    rw [hi, List.mem_singleton] at hs
    subst hs
    exact ⟨y.timeRange, hsrc, hull.start_le y hy, hull.end_le y hy⟩
  · intro r hr
    obtain ⟨g, -, hull, hg⟩ := hmem r hr
    obtain ⟨y, hy, hend⟩ := hull.end_mem
    obtain ⟨idx, n, -, -, hsrc⟩ := hg y hy
    exact ⟨idx, y.timeRange, n, hsrc, hend⟩

/-! ## The split -/

/-- The ranges `seq_scan_ranges` makes of a hull: `maybe_split`'s when it splits, else the hull
itself. -/
def splitRanges (split : Bool) (r : RangeMeta) : List RangeMeta :=
  if split then r.maybeSplit [] else [r]

/-- The row groups of the source `idx` that `ranges` read, in order. -/
def rowGroupsOf (ranges : List RangeMeta) (idx : ℕ) : List RowGroupIndex :=
  (ranges.flatMap rowGroupIndices).filter (·.index == idx)

/-- A source read once: whole, or each of its `n` row groups once, in order. -/
def ReadsOnce (rowGroups : List RowGroupIndex) (idx n : ℕ) : Prop :=
  rowGroups = [⟨idx, allRowGroups⟩] ∨
    1 < n ∧ rowGroups = (List.range n).map fun k : ℕ => ⟨idx, (k : ℤ)⟩

lemma maybeSplit_eq_append (r : RangeMeta) (output : List RangeMeta) :
    r.maybeSplit output = output ++ r.maybeSplit [] := by
  unfold maybeSplit
  split
  · split_ifs <;> simp
  · simp

lemma maybeSplitRangesForSeqScan_eq (ranges : List RangeMeta) :
    maybeSplitRangesForSeqScan ranges = ranges.flatMap (splitRanges true) := by
  suffices h : ∀ acc, ranges.foldl (fun newRanges range => range.maybeSplit newRanges) acc =
      acc ++ ranges.flatMap (splitRanges true) from h []
  induction ranges with
  | nil => intro acc; simp
  | cons r ranges ih =>
    intro acc
    rw [List.foldl_cons, ih, maybeSplit_eq_append, List.flatMap_cons, List.append_assoc]
    rfl

lemma seqScanRanges_eq (input : ScanInput) (compaction : Bool) :
    seqScanRanges input compaction =
      (groupRangesForSeqScan (seqSourceRanges input)).flatMap
        (splitRanges !(compaction || input.distribution == some .perSeries)) := by
  unfold seqScanRanges
  split_ifs with h
  · rw [h, Bool.not_true, show splitRanges false = fun r => [r] from rfl,
      List.flatMap_singleton']
  · rw [Bool.not_eq_true] at h
    rw [h, Bool.not_false, maybeSplitRangesForSeqScan_eq]

/-- The pieces of a hull keep its time range and its sources. -/
lemma mem_splitRanges {split : Bool} {r p : RangeMeta} (h : p ∈ splitRanges split r) :
    p.timeRange = r.timeRange ∧ p.indices = r.indices := by
  unfold splitRanges maybeSplit at h
  split_ifs at h
  · split at h
    · split_ifs at h
      · simp only [List.nil_append, List.mem_map] at h
        obtain ⟨k, -, rfl⟩ := h
        exact ⟨rfl, rfl⟩
      · rw [List.nil_append, List.mem_singleton] at h
        subst h
        exact ⟨rfl, rfl⟩
    · rw [List.nil_append, List.mem_singleton] at h
      subst h
      exact ⟨rfl, rfl⟩
  · rw [List.mem_singleton.mp h]
    exact ⟨rfl, rfl⟩

section Pieces

variable {r : RangeMeta} {idx : ℕ}

/-- A hull split by row group reads them all, from its one source. -/
lemma rowGroupsOf_maybeSplit :
    rowGroupsOf (r.maybeSplit []) idx =
      match r.indices with
      | [source] =>
        if 1 < source.numRowGroups then
          ((List.range source.numRowGroups).map fun k : ℕ =>
            (⟨source.index, (k : ℤ)⟩ : RowGroupIndex)).filter (·.index == idx)
        else rowGroupsOf [r] idx
      | _ => rowGroupsOf [r] idx := by
  unfold maybeSplit
  split
  · split_ifs
    · rw [rowGroupsOf, List.nil_append, List.flatMap_map]
      simp only [List.map_eq_flatMap]
    · rfl
  · rfl

variable (hall : r.rowGroupIndices = r.indices.map fun s => ⟨s.index, allRowGroups⟩)
include hall

/-- A hull that is not split reads its sources whole. -/
lemma rowGroupsOf_singleton :
    rowGroupsOf [r] idx =
      (r.indices.filter (·.index == idx)).map fun s => ⟨s.index, allRowGroups⟩ := by
  rw [rowGroupsOf, List.flatMap_singleton, hall, List.filter_map]
  rfl

lemma rowGroupsOf_splitRanges_of_filter_eq_nil (split : Bool)
    (h : r.indices.filter (·.index == idx) = []) : rowGroupsOf (splitRanges split r) idx = [] := by
  have hwhole : rowGroupsOf [r] idx = [] := by rw [rowGroupsOf_singleton hall, h]; rfl
  unfold splitRanges
  split_ifs
  · rw [rowGroupsOf_maybeSplit]
    split
    · rename_i source hsource
      split_ifs
      · rw [hsource] at h
        have hne : source.index ≠ idx := by simpa using h
        refine List.filter_eq_nil_iff.mpr fun x hx => ?_
        obtain ⟨k, -, rfl⟩ := List.mem_map.mp hx
        simpa using hne
      · exact hwhole
    · exact hwhole
  · exact hwhole

lemma readsOnce_splitRanges (split : Bool) {n : ℕ}
    (h : r.indices.filter (·.index == idx) = [⟨idx, n⟩]) :
    ReadsOnce (rowGroupsOf (splitRanges split r) idx) idx n := by
  have hwhole : rowGroupsOf [r] idx = [⟨idx, allRowGroups⟩] := by
    rw [rowGroupsOf_singleton hall, h]
    rfl
  unfold splitRanges
  split_ifs
  · rw [rowGroupsOf_maybeSplit]
    split
    · rename_i source hsource
      split_ifs with hsplit
      · -- the one source is `idx`, with its `n` row groups
        rw [hsource] at h
        have hsrc : source = ⟨idx, n⟩ := by
          by_cases hi : source.index = idx <;> simp_all
        subst hsrc
        refine Or.inr ⟨hsplit, List.filter_eq_self.mpr fun x hx => ?_⟩
        obtain ⟨k, -, rfl⟩ := List.mem_map.mp hx
        simp
      · exact Or.inl hwhole
    · exact Or.inl hwhole
  · exact Or.inl hwhole

end Pieces

/-- A list whose parts hold `x` once, in one part: a map that is empty wherever a part holds
nothing gives that part's value alone. -/
lemma flatMap_eq_of_flatMap_eq_singleton {α β γ : Type} {F : α → List β} {G : α → List γ}
    {x : β} : ∀ {l : List α}, (∀ a ∈ l, F a = [] → G a = []) → l.flatMap F = [x] →
      ∃ a ∈ l, F a = [x] ∧ l.flatMap G = G a
  | [], _, h => by simp at h
  | a :: l, hG, h => by
    rw [List.flatMap_cons, List.append_eq_singleton_iff] at h
    rcases h with ⟨ha, hl⟩ | ⟨ha, hl⟩
    · -- `x` is in the rest, and `a` gives nothing
      obtain ⟨b, hb, hFb, hGb⟩ :=
        flatMap_eq_of_flatMap_eq_singleton (fun b hb => hG b (List.mem_cons_of_mem _ hb)) hl
      refine ⟨b, List.mem_cons_of_mem _ hb, hFb, ?_⟩
      rw [List.flatMap_cons, hG a List.mem_cons_self ha, hGb, List.nil_append]
    · -- `x` is in `a`, and the rest gives nothing
      refine ⟨a, List.mem_cons_self, ha, ?_⟩
      have hrest : l.flatMap G = [] := List.flatMap_eq_nil_iff.mpr fun b hb =>
        hG b (List.mem_cons_of_mem _ hb) (List.flatMap_eq_nil_iff.mp hl b hb)
      rw [List.flatMap_cons, hrest, List.append_nil]

lemma rowGroupsOf_flatMap (l : List RangeMeta) (f : RangeMeta → List RangeMeta) (idx : ℕ) :
    rowGroupsOf (l.flatMap f) idx = l.flatMap fun r => rowGroupsOf (f r) idx := by
  rw [rowGroupsOf, List.flatMap_assoc, List.filter_flatMap]
  rfl

/-- Below `i64::MAX`, the exclusive end of a partition range is one past the inclusive end. -/
lemma newPartitionRange_end_of_lt {r : RangeMeta} (h : r.timeRange.2 < I64.MAX) :
    r.newPartitionRange.end = r.timeRange.2.val + 1 := by
  have hone : (I64.wrap 1).val = 1 := I64.val_wrap_of_inRange (by decide)
  have hlt : r.timeRange.2.val < I64.maxValue := I64.lt_iff.mp h
  have hin := r.timeRange.2.inRange
  unfold I64.InRange at hin
  rw [newPartitionRange, I64.checkedAdd, I64.val_getD_tryOfInt, hone, if_pos]
  unfold I64.InRange
  omega

section Split

variable {input : ScanInput} {hulls : List RangeMeta} (hG : GroupedRanges input hulls)
  (split : Bool)
include hG

lemma rowGroupsOf_splitRanges_eq_nil {idx : ℕ} (h : input.source idx = none) :
    rowGroupsOf (hulls.flatMap (splitRanges split)) idx = [] := by
  have hF := hG.filter_indices idx
  rw [h, Option.map_none, Option.toList_none, List.filter_flatMap, List.flatMap_eq_nil_iff] at hF
  rw [rowGroupsOf_flatMap, List.flatMap_eq_nil_iff]
  exact fun r hr => rowGroupsOf_splitRanges_of_filter_eq_nil (hG.rowGroupIndices_eq r hr) split
    (hF r hr)

lemma readsOnce_splitRanges_of_source {idx : ℕ} {tr : I64 × I64} {n : ℕ}
    (h : input.source idx = some (tr, n)) :
    ReadsOnce (rowGroupsOf (hulls.flatMap (splitRanges split)) idx) idx n := by
  have hF := hG.filter_indices idx
  rw [h, Option.map_some, Option.toList_some, List.filter_flatMap] at hF
  -- exactly one hull reads the source, and the others read none of its row groups
  obtain ⟨r, hr, hFr, heq⟩ := flatMap_eq_of_flatMap_eq_singleton
    (fun r hr hFr => rowGroupsOf_splitRanges_of_filter_eq_nil (hG.rowGroupIndices_eq r hr)
      split hFr) hF
  rw [rowGroupsOf_flatMap, heq]
  exact readsOnce_splitRanges (hG.rowGroupIndices_eq r hr) split hFr

lemma pairwise_start_splitRanges :
    (hulls.flatMap (splitRanges split)).Pairwise fun a b => a.timeRange.1 ≤ b.timeRange.1 := by
  rw [List.pairwise_flatMap]
  refine ⟨fun r _ => List.pairwise_of_forall_mem_list fun a ha b hb => ?_,
    hG.pairwise.imp fun h a ha b hb => ?_⟩
  · rw [(mem_splitRanges ha).1, (mem_splitRanges hb).1]
  · rw [(mem_splitRanges ha).1, (mem_splitRanges hb).1]
    exact h.1

lemma exists_groups_splitRanges :
    ∃ groups : List (List RangeMeta), groups.flatten = hulls.flatMap (splitRanges split) ∧
      (∀ g ∈ groups, ∀ a ∈ g, ∀ b ∈ g, a.timeRange = b.timeRange) ∧
      groups.Pairwise fun g g' =>
        ∀ a ∈ g, ∀ b ∈ g', Greptime.overlaps a.timeRange b.timeRange = false := by
  refine ⟨hulls.map (splitRanges split), List.flatMap_def.symm, fun g hg a ha b hb => ?_,
    List.pairwise_map.mpr (hG.pairwise.imp fun h a ha b hb => ?_)⟩
  · obtain ⟨r, -, rfl⟩ := List.mem_map.mp hg
    rw [(mem_splitRanges ha).1, (mem_splitRanges hb).1]
  · rw [(mem_splitRanges ha).1, (mem_splitRanges hb).1]
    exact h.2

lemma covers_splitRanges {p : RangeMeta} (hp : p ∈ hulls.flatMap (splitRanges split))
    {s : SourceIndex} (hs : s ∈ p.indices) {tr : I64 × I64} {n : ℕ}
    (hsrc : input.source s.index = some (tr, n)) :
    p.timeRange.1 ≤ tr.1 ∧ tr.2 ≤ p.timeRange.2 := by
  obtain ⟨r, hr, hpr⟩ := List.mem_flatMap.mp hp
  obtain ⟨htime, hindices⟩ := mem_splitRanges hpr
  rw [hindices] at hs
  obtain ⟨tr', hsrc', h1, h2⟩ := hG.covers r hr s hs
  obtain rfl : tr' = tr := (Prod.mk.inj (Option.some.inj (hsrc'.symm.trans hsrc))).1
  rw [htime]
  exact ⟨h1, h2⟩

lemma end_lt_splitRanges (hmax : ∀ idx tr n, input.source idx = some (tr, n) → tr.2 < I64.MAX)
    {p : RangeMeta} (hp : p ∈ hulls.flatMap (splitRanges split)) : p.timeRange.2 < I64.MAX := by
  obtain ⟨r, hr, hpr⟩ := List.mem_flatMap.mp hp
  obtain ⟨idx, tr, n, hsrc, hend⟩ := hG.end_eq r hr
  rw [(mem_splitRanges hpr).1, hend]
  exact hmax idx tr n hsrc

end Split

/-- The ranges of a sequential scan, for every input: each memtable with rows and each file is
read once, whole or row group by row group; the starts do not decrease; the ranges fall into
groups of one time range, apart from each other; each range holds the time ranges of its
sources; the partition ranges pass the ascending check of the windowed sort, and when no source
ends at `i64::MAX` they hold every timestamp of their sources. -/
theorem seqScanRanges_spec (input : ScanInput) :
    (∀ idx, input.source idx = none → rowGroupsOf (seqScanRanges input false) idx = []) ∧
    (∀ idx tr n, input.source idx = some (tr, n) →
      ReadsOnce (rowGroupsOf (seqScanRanges input false) idx) idx n) ∧
    (seqScanRanges input false).Pairwise (fun a b => a.timeRange.1 ≤ b.timeRange.1) ∧
    (∃ groups : List (List RangeMeta), groups.flatten = seqScanRanges input false ∧
      (∀ g ∈ groups, ∀ a ∈ g, ∀ b ∈ g, a.timeRange = b.timeRange) ∧
      groups.Pairwise fun g g' =>
        ∀ a ∈ g, ∀ b ∈ g', Greptime.overlaps a.timeRange b.timeRange = false) ∧
    (∀ r ∈ seqScanRanges input false, ∀ s ∈ r.indices, ∀ tr n,
      input.source s.index = some (tr, n) → r.timeRange.1 ≤ tr.1 ∧ tr.2 ≤ r.timeRange.2) ∧
    WindowSort.checkPartitionRangeMonotonicity
      [(seqScanRanges input false).map newPartitionRange] false = .ok () ∧
    ((∀ idx tr n, input.source idx = some (tr, n) → tr.2 < I64.MAX) →
      ∀ r ∈ seqScanRanges input false, ∀ s ∈ r.indices, ∀ tr n,
        input.source s.index = some (tr, n) → ∀ t : I64, tr.1 ≤ t → t ≤ tr.2 →
          r.newPartitionRange.start ≤ t.val ∧ t.val < r.newPartitionRange.end) := by
  have hG := groupRangesForSeqScan_spec input
  rw [seqScanRanges_eq]
  generalize groupRangesForSeqScan (seqSourceRanges input) = hulls at hG ⊢
  generalize (!(false || input.distribution == some .perSeries)) = shouldSplit
  have hstart := pairwise_start_splitRanges hG shouldSplit
  refine ⟨fun idx h => rowGroupsOf_splitRanges_eq_nil hG shouldSplit h,
    fun idx tr n h => readsOnce_splitRanges_of_source hG shouldSplit h, hstart,
    exists_groups_splitRanges hG shouldSplit,
    fun r hr s hs tr n hsrc => covers_splitRanges hG shouldSplit hr hs hsrc, ?_, ?_⟩
  · refine WindowSort.checkPartitionRangeMonotonicity_of_pairwise fun rs hrs => ?_
    rw [List.mem_singleton.mp hrs, List.pairwise_map]
    exact hstart.imp fun h => I64.le_iff.mp h
  · intro hmax r hr s hs tr n hsrc t hlo hhi
    obtain ⟨h1, h2⟩ := covers_splitRanges hG shouldSplit hr hs hsrc
    rw [newPartitionRange_end_of_lt (end_lt_splitRanges hG shouldSplit hmax hr)]
    have h1 := I64.le_iff.mp (h1.trans hlo)
    have h2 := I64.le_iff.mp (hhi.trans h2)
    exact ⟨h1, by omega⟩

end Greptime
