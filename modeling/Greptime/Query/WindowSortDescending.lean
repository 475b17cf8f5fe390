import Greptime.Query.WindowSortAscending

/-!
# The windowed sort, descending, and the sort of a partition

A descending sort is the ascending sort seen in a mirror: negate the time index of every row,
flip the direction of the sort and reflect every range (`TimeRange.reflect` sends `[s, e)` to
`[1 - e, 1 - s)`), and each step of the stream does the same thing on the mirror images
(`processRun_mirror`, `consume_mirror`).  The checks of `processRun` change places in the mirror,
the right check of one being the left check of the other, so the two streams fail in the same
cases with errors that may differ, and give the same output otherwise.  The descending working
ranges are the mirror images of the ascending working ranges of the mirror images of the pieces
(`computeAllWorkingRanges_descending`), so that the ascending theorem applies to the mirror.

`WindowedSortExec` then sorts every partition whose ranges pass
`check_partition_range_monotonicity`, each holding a point, when each range's rows come sorted
in the direction of the sort, as the source asks of its input: "Each `PartitionRange` is sorted
within itself (ascending or descending)".  Rows of a range in any other order can make the stream
fail with an internal error: a row below the working range the stream has moved to.
-/

namespace Greptime

namespace WindowSort

variable {α : Type}

/-! ## Mirror images -/

/-- The options of the sort in the other direction. -/
def SortOptions.flip (opts : SortOptions) : SortOptions :=
  { opts with descending := !opts.descending }

@[simp] lemma SortOptions.flip_descending (opts : SortOptions) :
    opts.flip.descending = !opts.descending := rfl

lemma compare_neg_neg (x y : ℤ) : compare (-x) (-y) = compare y x := by
  rcases lt_trichotomy x y with h | rfl | h
  · rw [compare_gt_iff_gt.mpr (Int.neg_lt_neg h), compare_gt_iff_gt.mpr h]
  · rw [compare_eq_iff_eq.mpr rfl, compare_eq_iff_eq.mpr rfl]
  · rw [compare_lt_iff_lt.mpr (Int.neg_lt_neg h), compare_lt_iff_lt.mpr h]

lemma compare_ne_gt (x y : ℤ) : (compare x y != .gt) = decide (x ≤ y) := by
  by_cases h : x ≤ y
  · simp [h, compare_gt_iff_gt]
  · simp [h, compare_gt_iff_gt]
    omega

lemma compare_eq_lt (x y : ℤ) : (compare x y == .lt) = decide (x < y) := by
  by_cases h : x < y <;> simp [h, compare_lt_iff_lt]

/-- Negated values compare in the other direction as the values do. -/
lemma cmpWithOpts_flip (a b : Option ℤ) (opts : SortOptions) :
    cmpWithOpts (a.map Neg.neg) (b.map Neg.neg) opts.flip = cmpWithOpts a b opts := by
  cases a <;> cases b <;> cases h : opts.descending <;>
    simp [cmpWithOpts, SortOptions.flip, h, compare_neg_neg]

lemma sortLe_flip (key : α → ℤ) (opts : SortOptions) :
    sortLe (fun a => -key a) opts.flip = sortLe key opts := by
  funext a b
  have h := cmpWithOpts_flip (some (key a)) (some (key b)) opts
  simp only [Option.map_some] at h
  simp only [sortLe, h]

/-- A run with its values negated. -/
def SucRun.mirror (run : SucRun) : SucRun :=
  ⟨run.offset, run.len, run.firstVal.map Neg.neg, run.lastVal.map Neg.neg⟩

namespace TimeRange

lemma reflect_new (s e : ℤ) : (new s e).reflect = new (1 - e) (1 - s) := by
  unfold new
  split_ifs with h₁ h₂ h₂ <;> simp only [reflect, mk.injEq] <;> omega

lemma reflect_intersection (r o : TimeRange) :
    r.reflect.intersection o.reflect = (r.intersection o).map reflect := by
  unfold intersection
  rw [isOverlapping_reflect]
  split_ifs
  · simp only [reflect_start, reflect_end, Option.map_some, reflect_new, Option.some.injEq]
    congr 1 <;> omega
  · rfl

end TimeRange

lemma SucRun.getTimeRange_mirror (run : SucRun) :
    run.mirror.getTimeRange = run.getTimeRange.map TimeRange.reflect := by
  unfold SucRun.getTimeRange SucRun.mirror
  cases run.firstVal <;> cases run.lastVal <;> simp only [Option.map_some, Option.map_none]
  rw [TimeRange.reflect_new]
  congr 2 <;> omega

/-- The bisection of the negated column in the other direction, at the mirror image of a bound,
counts the same values. -/
lemma bisect_flip (opts : SortOptions) (values : List ℤ) (t : ℤ) :
    bisect opts.descending opts.flip (values.map Neg.neg) (1 - t) =
      bisect (!opts.descending) opts values t := by
  unfold bisect
  rw [List.takeWhile_map, List.length_map]
  congr 2
  funext v
  cases h : opts.descending <;>
    simp only [cmpWithOpts, SortOptions.flip_descending, h, Bool.not_false, Bool.not_true,
      if_true, if_false, Bool.false_eq_true, compare_ne_gt, compare_eq_lt, Function.comp_apply,
      decide_eq_decide] <;>
    omega

lemma findSliceFromRange_flip (values : List ℤ) (opts : SortOptions) (range : TimeRange) :
    findSliceFromRange (values.map Neg.neg) opts.flip range.reflect =
      findSliceFromRange values opts range := by
  have h₁ := bisect_flip opts values range.start
  have h₂ := bisect_flip opts values range.end
  unfold findSliceFromRange
  cases h : opts.descending <;> simp only [h, Bool.not_false, Bool.not_true] at h₁ h₂ <;>
    simp [h, TimeRange.reflect, h₁, h₂]

/-- The scan of `find_successive_runs` over the negated column. -/
def RunScan.mirror (st : RunScan) : RunScan :=
  ⟨st.runs.map SucRun.mirror, st.lastValue.map (Option.map Neg.neg), st.iterLen, st.lastOffset,
    st.firstVal.map Neg.neg, st.lastVal.map Neg.neg⟩

lemma RunScan.step_flip (opts : SortOptions) (st : RunScan) (x : Option ℤ × ℕ) :
    RunScan.step opts.flip st.mirror (Prod.map (Option.map Neg.neg) id x) =
      (RunScan.step opts st x).mirror := by
  rcases st with ⟨runs, lastValue, iterLen, lastOffset, firstVal, lastVal⟩
  rcases x with ⟨v, i⟩
  cases lastValue with
  | none => cases v <;> simp [RunScan.step, RunScan.mirror]
  | some lv =>
    simp only [RunScan.step, RunScan.mirror, Prod.map, id, Option.map_some, cmpWithOpts_flip]
    split_ifs <;> cases v <;> simp [SucRun.mirror]

lemma foldl_step_flip (opts : SortOptions) (l : List (Option ℤ × ℕ)) (st : RunScan) :
    (l.map (Prod.map (Option.map Neg.neg) id)).foldl (RunScan.step opts.flip) st.mirror =
      (l.foldl (RunScan.step opts) st).mirror := by
  induction l generalizing st with
  | nil => rfl
  | cons x l ih => rw [List.map_cons, List.foldl_cons, List.foldl_cons, RunScan.step_flip, ih]

/-- The runs of the negated column in the other direction are the runs of the column, negated. -/
lemma findSuccessiveRuns_flip (values : List (Option ℤ)) (opts : SortOptions) :
    findSuccessiveRuns (values.map (Option.map Neg.neg)) opts.flip =
      (findSuccessiveRuns values opts).map SucRun.mirror := by
  have h := foldl_step_flip opts values.zipIdx RunScan.init
  unfold findSuccessiveRuns
  rw [List.zipIdx_map]
  rw [show RunScan.mirror RunScan.init = RunScan.init from rfl] at h
  rw [h]
  simp [RunScan.mirror, SucRun.mirror]

/-- `split_batch_to_sorted_run` of the rows by the negated time index in the other direction
gives the same slices, with the runs negated. -/
lemma splitBatchToSortedRun_flip (key : α → ℤ) (opts : SortOptions) (batch : List α) :
    splitBatchToSortedRun (fun a => -key a) opts.flip batch =
      (splitBatchToSortedRun key opts batch).map (List.map (Prod.map id SucRun.mirror)) := by
  have hvalues : (batch.map fun a => some (-key a)) =
      (batch.map fun a => some (key a)).map (Option.map Neg.neg) := by
    simp [Function.comp_def]
  unfold splitBatchToSortedRun
  rw [hvalues, findSuccessiveRuns_flip]
  rcases findSuccessiveRuns (batch.map fun a => some (key a)) opts with _ | ⟨run, _ | ⟨run', runs⟩⟩
  · rfl
  · simp only [List.map_cons, List.map_nil]
    by_cases h : run.offset = 0 ∧ run.len = batch.length
    · simp [SucRun.mirror, h, Except.map]
    · simp [SucRun.mirror, h, Except.map]
  · rw [List.map_cons, List.map_cons]
    dsimp only
    rw [← List.map_cons, ← List.map_cons]
    refine Except.mapM_map_of_comm (fun r => ?_) _
    by_cases h : r.offset + r.len > batch.length
    · simp [SucRun.mirror, h, Except.map]
    · simp [SucRun.mirror, h, Except.map]

/-! ## The stream in the mirror -/

namespace WindowedSortStream

/-- The stream of the negated time index, sorting in the other direction over the mirror images
of its working ranges. -/
def mirror (st : WindowedSortStream α) : WindowedSortStream α :=
  { st with
    key := fun a => -st.key a
    opts := st.opts.flip
    allAvailWorkingRange := st.allAvailWorkingRange.map reflectEntry
    lastValue := st.lastValue.map Neg.neg }

variable (st : WindowedSortStream α)

lemma rowLe_eq : st.rowLe = sortLe st.key st.opts := rfl

@[simp] lemma isTerminated_mirror : st.mirror.isTerminated = st.isTerminated := rfl

@[simp] lemma rowLe_mirror : st.mirror.rowLe = st.rowLe := by
  funext a b
  exact congrFun (congrFun (sortLe_flip st.key st.opts) a) b

lemma getWorkingRange_mirror :
    st.mirror.getWorkingRange = st.getWorkingRange.map TimeRange.reflect := by
  simp [getWorkingRange, mirror, reflectEntry, Option.map_map, Function.comp_def]

lemma buildSortedStream_mirror : st.mirror.buildSortedStream = st.buildSortedStream.mirror := by
  rw [buildSortedStream_eq, buildSortedStream_eq]
  rfl

lemma tryConcatBatch_mirror (batch : List α) (runInfo : SucRun) :
    st.mirror.tryConcatBatch batch runInfo.mirror = (st.tryConcatBatch batch runInfo).mirror := by
  have hcmp : cmpWithOpts st.mirror.lastValue runInfo.mirror.firstVal st.mirror.opts =
      cmpWithOpts st.lastValue runInfo.firstVal st.opts :=
    cmpWithOpts_flip _ _ _
  unfold tryConcatBatch
  rw [hcmp]
  dsimp only
  split_ifs
  · rfl
  · rw [buildSortedStream_mirror]
    rfl

lemma startNewMergeSort_mirror :
    st.mirror.startNewMergeSort = st.startNewMergeSort.map mirror := by
  unfold startNewMergeSort
  by_cases h : st.inProgress.isEmpty
  · have h' : st.mirror.inProgress.isEmpty = true := h
    simp only [h, h', Bool.not_true, Bool.false_eq_true, if_false]
    rcases hs : st.sortedInputRuns with _ | ⟨s₁, _ | ⟨s₂, streams⟩⟩ <;>
      simp [mirror, hs, Except.map, streamingMerge, remainingFetch, rowLe_eq, sortLe_flip]
  · have h' : st.mirror.inProgress.isEmpty = false := Bool.eq_false_iff.mpr h
    simp only [Bool.eq_false_iff.mpr h, h', Bool.not_false, if_true]
    rfl

/-- `processRun` in the mirror fails where it fails and gives the mirror image of what it gives;
the errors may differ, the checks of the two directions changing places. -/
lemma processRun_mirror (fuel : ℕ) (st : WindowedSortStream α) (rb : List α) (runInfo : SucRun) :
    (st.mirror.processRun fuel (rb, runInfo.mirror)).toOption =
      (st.processRun fuel (rb, runInfo)).toOption.map mirror := by
  induction fuel generalizing st rb runInfo with
  | zero => rfl
  | succ fuel ih =>
    simp only [processRun, SucRun.getTimeRange_mirror, getWorkingRange_mirror]
    by_cases hlen : rb.length = 0
    · simp [hlen]
    rw [if_neg hlen, if_neg hlen]
    cases hcur : runInfo.getTimeRange with
    | none => rfl
    | some cur =>
      cases hw : st.getWorkingRange with
      | none => rfl
      | some w =>
        dsimp only [Option.map_some]
        have hvalues : rb.map st.mirror.key = (rb.map st.key).map Neg.neg := by
          simp [mirror, Function.comp_def]
        -- the right check of the one direction is the left check of the other
        have hright : (st.mirror.opts.descending = true ∧ cur.reflect.end > w.reflect.end) ↔
            ((!st.opts.descending) = true ∧ cur.start < w.start) := by
          simp only [mirror, SortOptions.flip_descending, TimeRange.reflect_end]
          constructor <;> rintro ⟨h₁, h₂⟩ <;> exact ⟨h₁, by omega⟩
        have hleft : ((!st.mirror.opts.descending) = true ∧ cur.reflect.start < w.reflect.start) ↔
            (st.opts.descending = true ∧ cur.end > w.end) := by
          simp only [mirror, SortOptions.flip_descending, Bool.not_not, TimeRange.reflect_start]
          constructor <;> rintro ⟨h₁, h₂⟩ <;> exact ⟨h₁, by omega⟩
        simp only [hright, hleft, TimeRange.isSubset_reflect, TimeRange.reflect_intersection]
        by_cases hR : st.opts.descending = true ∧ cur.end > w.end
        · simp [hR]
        by_cases hL : (!st.opts.descending) = true ∧ cur.start < w.start
        · have hasc : st.opts.descending = false := by simpa using hL.1
          simp [hL, hasc]
        simp only [hR, hL, if_false]
        by_cases hsub : cur.isSubset w = true
        · simp [hsub, tryConcatBatch_mirror]
        simp only [hsub, Bool.false_eq_true, if_false]
        cases hi : cur.intersection w with
        | none =>
          rw [Option.map_none, buildSortedStream_mirror, startNewMergeSort_mirror]
          exact Except.toOption_bind_of_map Except.toOption_map fun s => ih s rb runInfo
        | some i =>
          have hslice : findSliceFromRange (rb.map st.mirror.key) st.mirror.opts i.reflect =
              findSliceFromRange (rb.map st.key) st.opts i := by
            rw [hvalues]
            exact findSliceFromRange_flip _ _ _
          simp only [Option.map_some, hslice]
          by_cases h0 : (findSliceFromRange (rb.map st.key) st.opts i).1 ≠ 0
          · simp [h0]
          rw [if_neg h0, if_neg h0, tryConcatBatch_mirror, buildSortedStream_mirror,
            startNewMergeSort_mirror]
          refine Except.toOption_bind_of_map Except.toOption_map fun s => ?_
          split_ifs
          · -- the rest of the run, read again, is the mirror image of the rest
            rw [hvalues, List.getElem?_map]
            exact ih s _ ⟨_, _, _, runInfo.lastVal⟩
          · rfl

lemma processRuns_mirror (st : WindowedSortStream α) (runs : List (List α × SucRun)) :
    (st.mirror.processRuns (runs.map (Prod.map id SucRun.mirror))).toOption =
      (st.processRuns runs).toOption.map mirror := by
  induction runs generalizing st with
  | nil => rfl
  | cons run runs ih =>
    have hlen : st.mirror.allAvailWorkingRange.length = st.allAvailWorkingRange.length :=
      List.length_map _
    rw [List.map_cons, processRuns_cons, processRuns_cons, hlen]
    exact Except.toOption_bind_of_map (processRun_mirror _ st run.1 run.2) fun s => ih s

lemma pollResults_mirror (st : WindowedSortStream α) :
    st.mirror.pollResults = (st.pollResults.1, st.pollResults.2.mirror) := rfl

/-- The stream in the mirror fails where the stream fails and outputs what it outputs. -/
theorem consume_mirror (st : WindowedSortStream α) (batches : List (List α)) :
    (st.mirror.consume batches).toOption = (st.consume batches).toOption := by
  induction batches generalizing st with
  | nil =>
    -- the end of the input closes the last working range, in the mirror as outside it
    have h : ({ st.mirror with isTerminated := true } : WindowedSortStream α).buildSortedStream.startNewMergeSort =
        ({ st with isTerminated := true } : WindowedSortStream α).buildSortedStream.startNewMergeSort.map
          mirror := by
      rw [← startNewMergeSort_mirror, ← buildSortedStream_mirror]
      rfl
    simp only [consume, h]
    rcases ({ st with isTerminated := true } : WindowedSortStream α).buildSortedStream.startNewMergeSort
      with e | s <;> rfl
  | cons batch batches ih =>
    have hsplit : splitBatchToSortedRun st.mirror.key st.mirror.opts batch =
        (splitBatchToSortedRun st.key st.opts batch).map (List.map (Prod.map id SucRun.mirror)) :=
      splitBatchToSortedRun_flip st.key st.opts batch
    simp only [consume, hsplit]
    rcases splitBatchToSortedRun st.key st.opts batch with e | runs
    · rfl
    simp only [Except.map, Except.ok_bind]
    have hruns := processRuns_mirror st runs
    rcases h : st.processRuns runs with e | s
    · -- the runs fail in the mirror too
      rw [h] at hruns
      rcases h' : st.mirror.processRuns (runs.map (Prod.map id SucRun.mirror)) with e' | s'
      · rfl
      · rw [h'] at hruns
        cases hruns
    · rw [h, Except.toOption_ok, Option.map_some] at hruns
      simp only [Except.eq_ok_of_toOption hruns, Except.ok_bind, pollResults_mirror,
        isTerminated_mirror]
      by_cases ht : s.pollResults.2.isTerminated = true
      · simp only [ht, if_true]
      · simp only [ht, Bool.false_eq_true, if_false]
        exact Except.toOption_bind_congr (ih s.pollResults.2) _

end WindowedSortStream

open WindowedSortStream

/-- The descending stream sorts every input whose negated rows keep the promise of the mirror
images of its working ranges: it is the ascending stream of the mirror. -/
theorem consume_sorts_of_desc (key : α → ℤ) (opts : SortOptions) (hdesc : opts.descending = true)
    (fetch : Option ℕ) {W : List (TimeRange × Finset ℕ)} (hW : Ordered (W.map reflectEntry))
    {input : List (List α)} (hunread : Unread (fun a => -key a) (W.map reflectEntry) 0 input.flatten) :
    ∃ out sorted, (WindowedSortStream.new key opts fetch W).consume input = .ok out ∧
      sorted.Pairwise (fun a b => key b ≤ key a) ∧ sorted.Perm input.flatten ∧
      out.flatten = truncate fetch sorted := by
  obtain ⟨out, sorted, h, hsorted, hperm, hout⟩ :=
    consume_sorts_of_asc (fun a => -key a) opts.flip (by simp [hdesc]) fetch hW hunread
  have hmirror : (WindowedSortStream.new key opts fetch W).mirror =
      WindowedSortStream.new (fun a => -key a) opts.flip fetch (W.map reflectEntry) := rfl
  have hconsume := consume_mirror (WindowedSortStream.new key opts fetch W) input
  rw [hmirror, h, Except.toOption_ok] at hconsume
  exact ⟨out, sorted, Except.eq_ok_of_toOption hconsume.symm,
    hsorted.imp fun hab => by dsimp only at hab; omega, hperm, hout⟩

/-! ## The sort of a partition -/

/-- A list whose windows of two all pass a test is a chain of it. -/
lemma isChain_of_all_zip_tail {β : Type} {R : β → β → Prop} [DecidableRel R] :
    ∀ {l : List β}, ((l.zip l.tail).all fun w => decide (R w.1 w.2)) = true → l.IsChain R
  | [], _ => List.IsChain.nil
  | [b], _ => List.IsChain.singleton b
  | a :: b :: rest, h => by
    simp only [List.tail_cons, List.zip_cons_cons, List.all_cons, Bool.and_eq_true,
      decide_eq_true_eq] at h
    exact List.IsChain.cons_cons h.1 (isChain_of_all_zip_tail h.2)

/-- What `check_partition_range_monotonicity` lets through for each partition. -/
lemma all_of_checkPartitionRangeMonotonicity {ranges : List (List PartitionRange)}
    {descending : Bool} (h : checkPartitionRangeMonotonicity ranges descending = .ok ())
    {r : List PartitionRange} (hr : r ∈ ranges) :
    (if descending then (r.zip r.tail).all fun w => decide (w.1.end ≥ w.2.end)
      else (r.zip r.tail).all fun w => decide (w.1.start ≤ w.2.start)) = true := by
  have hvalid : (ranges.all fun r => if descending then
        (r.zip r.tail).all fun w => decide (w.1.end ≥ w.2.end)
      else (r.zip r.tail).all fun w => decide (w.1.start ≤ w.2.start)) = true := by
    unfold checkPartitionRangeMonotonicity at h
    dsimp only at h
    by_contra hne
    rw [if_pos (by simpa using hne)] at h
    cases h
  exact List.all_eq_true.mp hvalid r hr

/-- The ranges of a partition the ascending check lets through come by start. -/
lemma pairwise_start_of_check {ranges : List PartitionRange}
    (h : checkPartitionRangeMonotonicity [ranges] false = .ok ()) :
    ranges.Pairwise fun a b => a.start ≤ b.start := by
  have hall := all_of_checkPartitionRangeMonotonicity h List.mem_cons_self
  rw [if_neg Bool.false_ne_true] at hall
  have hchain : ranges.IsChain fun a b => a.start ≤ b.start := isChain_of_all_zip_tail hall
  exact List.pairwise_map.mp ((List.isChain_map PartitionRange.start).mpr hchain).pairwise

/-- The ranges of a partition the descending check lets through come by end, the last first. -/
lemma pairwise_end_of_check {ranges : List PartitionRange}
    (h : checkPartitionRangeMonotonicity [ranges] true = .ok ()) :
    ranges.Pairwise fun a b => b.end ≤ a.end := by
  have hall := all_of_checkPartitionRangeMonotonicity h List.mem_cons_self
  rw [if_pos rfl] at hall
  have hchain : ranges.IsChain fun a b => a.end ≥ b.end := isChain_of_all_zip_tail hall
  exact List.pairwise_map.mp ((List.isChain_map PartitionRange.end).mpr hchain).pairwise

/-- What `WindowedSortExec::try_new` builds for one partition whose ranges pass the check. -/
lemma tryNew_of_check {key : α → ℤ} {opts : SortOptions} {fetch : Option ℕ}
    {ranges : List PartitionRange}
    (hcheck : checkPartitionRangeMonotonicity [ranges] opts.descending = .ok ()) :
    WindowedSortExec.tryNew key opts fetch [ranges] = .ok ⟨key, opts, fetch, [ranges],
      [computeAllWorkingRanges (splitOverlappingRanges ranges) opts.descending]⟩ := by
  simp [WindowedSortExec.tryNew, hcheck, pure, Except.pure]

/-- `WindowedSortExec` sorts a partition whose ranges pass `check_partition_range_monotonicity`,
each holding a point, when the input yields the rows of its ranges in order, each row in its range
and the rows of each range sorted in the direction of the sort: the output is a sorted permutation
of the rows, cut at `fetch`. -/
theorem execute_sorts (key : α → ℤ) (opts : SortOptions) (fetch : Option ℕ)
    (ranges : List PartitionRange)
    (hcheck : checkPartitionRangeMonotonicity [ranges] opts.descending = .ok ())
    (hproper : ∀ r ∈ ranges, r.start < r.end) (input : List (List (List α)))
    (hinput : List.Forall₂ (fun (r : PartitionRange) (batches : List (List α)) =>
      (∀ a ∈ batches.flatten, r.start ≤ key a ∧ key a < r.end) ∧
        batches.flatten.Pairwise fun a b => sortLe key opts a b = true) ranges input) :
    ∃ exec out sorted, WindowedSortExec.tryNew key opts fetch [ranges] = .ok exec ∧
      exec.execute 0 input.flatten = .ok out ∧ sorted.Perm input.flatten.flatten ∧
      sorted.Pairwise (fun a b => sortLe key opts a b = true) ∧
      out.flatten = truncate fetch sorted := by
  have hs := splitOverlappingRanges_spec ranges hproper
  have hkeys : ranges.map PartitionRange.timeRange = ranges.map fun r => ⟨r.start, r.end⟩ :=
    List.map_congr_left fun r hr => PartitionRange.timeRange_of_lt (hproper r hr)
  have hrows : List.Forall₂ (fun (r : PartitionRange) (l : List α) =>
      (∀ a ∈ l, r.start ≤ key a ∧ key a < r.end) ∧ l.Pairwise fun a b => sortLe key opts a b = true)
      ranges (input.map List.flatten) :=
    List.forall₂_map_right_iff.mpr hinput
  rw [List.flatten_flatten]
  cases hd : opts.descending
  · -- ascending: the stream of the ranges themselves
    have hmono : (ranges.map PartitionRange.timeRange).Pairwise fun a b => a.start ≤ b.start := by
      rw [hkeys, List.pairwise_map]
      exact pairwise_start_of_check (hd ▸ hcheck)
    have hprop : ∀ r ∈ ranges.map PartitionRange.timeRange, r.Proper := by
      rw [hkeys]
      simpa [TimeRange.Proper] using hproper
    have hrows' : List.Forall₂ (fun r l => (∀ a ∈ l, key a ∈ r) ∧ KeySorted key l)
        (ranges.map PartitionRange.timeRange) (input.map List.flatten) := by
      rw [hkeys, List.forall₂_map_left_iff]
      refine hrows.imp fun r l h => ⟨fun a ha => TimeRange.mem_mk.mpr (h.1 a ha), ?_⟩
      exact h.2.imp fun hab => by simpa [sortLe_iff, hd] using hab
    have hunread := unread_of_ranges hs hmono hprop hrows'
    rw [← List.flatten_flatten] at hunread
    obtain ⟨out, sorted, hout, hsorted, hperm, htrunc⟩ :=
      consume_sorts_of_asc key opts hd fetch (ordered_computeAllWorkingRanges hs) hunread
    refine ⟨_, out, sorted, tryNew_of_check hcheck, by simpa [WindowedSortExec.execute, hd] using hout,
      by rwa [List.flatten_flatten] at hperm, hsorted.imp fun hab => by simpa [sortLe_iff, hd] using hab,
      htrunc⟩
  · -- descending: the ascending stream of the mirror images
    have hs' := hs.reflect
    have hWeq : (computeAllWorkingRanges (splitOverlappingRanges ranges) true).map reflectEntry =
        computeAllWorkingRanges ((splitOverlappingRanges ranges).reverse.map reflectEntry) false := by
      rw [computeAllWorkingRanges_descending, List.map_map]
      simp [Function.comp_def]
    have hmono : ((ranges.map PartitionRange.timeRange).map TimeRange.reflect).Pairwise
        fun a b => a.start ≤ b.start := by
      rw [hkeys, List.map_map, List.pairwise_map]
      exact (pairwise_end_of_check (hd ▸ hcheck)).imp fun hab => by
        simp only [Function.comp_apply, TimeRange.reflect_start]
        omega
    have hprop : ∀ r ∈ (ranges.map PartitionRange.timeRange).map TimeRange.reflect, r.Proper := by
      rw [hkeys]
      simpa [TimeRange.Proper] using hproper
    have hrows' : List.Forall₂ (fun r l => (∀ a ∈ l, -key a ∈ r) ∧ KeySorted (fun a => -key a) l)
        ((ranges.map PartitionRange.timeRange).map TimeRange.reflect) (input.map List.flatten) := by
      rw [hkeys, List.map_map, List.forall₂_map_left_iff]
      refine hrows.imp fun r l h => ⟨fun a ha => ?_, ?_⟩
      · simpa [TimeRange.neg_mem_reflect] using h.1 a ha
      · exact h.2.imp fun hab => by
          simp only [sortLe_iff, hd, if_true] at hab
          dsimp only
          omega
    have hunread := unread_of_ranges hs' hmono hprop hrows'
    rw [← hWeq, ← List.flatten_flatten] at hunread
    have hW := ordered_computeAllWorkingRanges hs'
    rw [← hWeq] at hW
    obtain ⟨out, sorted, hout, hsorted, hperm, htrunc⟩ :=
      consume_sorts_of_desc key opts hd fetch hW hunread
    refine ⟨_, out, sorted, tryNew_of_check hcheck, by simpa [WindowedSortExec.execute, hd] using hout,
      by rwa [List.flatten_flatten] at hperm, hsorted.imp fun hab => by simpa [sortLe_iff, hd] using hab,
      htrunc⟩

theorem execute_sorts_overlappingRanges :
    checkPartitionRangeMonotonicity [[⟨0, 10⟩, ⟨5, 15⟩]] false = .ok () ∧
      (∀ r ∈ [(⟨0, 10⟩ : PartitionRange), ⟨5, 15⟩], r.start < r.end) ∧
      List.Forall₂ (fun (r : PartitionRange) (batches : List (List ℤ)) =>
        (∀ a ∈ batches.flatten, r.start ≤ a ∧ a < r.end) ∧
          batches.flatten.Pairwise fun a b => sortLe (fun a : ℤ => a) ⟨false, false⟩ a b = true)
        [⟨0, 10⟩, ⟨5, 15⟩] [[[2, 7]], [[6], [9, 12]]] ∧
      ∃ exec out sorted, WindowedSortExec.tryNew (fun a : ℤ => a) ⟨false, false⟩ (some 3)
          [[⟨0, 10⟩, ⟨5, 15⟩]] = .ok exec ∧
        exec.execute 0 [[[2, 7]], [[6], [9, 12]]].flatten = .ok out ∧
        sorted.Perm [[[2, 7]], [[6], [9, 12]]].flatten.flatten ∧
        sorted.Pairwise (fun a b => sortLe (fun a : ℤ => a) ⟨false, false⟩ a b = true) ∧
        out.flatten = truncate (some 3) sorted :=
  ⟨by decide, by decide, by decide,
    execute_sorts (fun a : ℤ => a) ⟨false, false⟩ (some 3) [⟨0, 10⟩, ⟨5, 15⟩] (by decide) (by decide)
      [[[2, 7]], [[6], [9, 12]]] (by decide)⟩

/-- Without the promise that each range's rows come sorted the stream can fail: the rows `7, 2`
of the range `[0, 10)`, overlapping `[5, 15)`, make the working ranges `[0, 5)`, `[5, 10)` and
`[10, 15)`; the run `7` closes `[0, 5)`, and the run `2` is then left of the working range. -/
theorem execute_unsortedRange_fails :
    checkPartitionRangeMonotonicity [[⟨0, 10⟩, ⟨5, 15⟩]] false = .ok () ∧
      (∀ r ∈ [(⟨0, 10⟩ : PartitionRange), ⟨5, 15⟩], r.start < r.end) ∧
      List.Forall₂ (fun (r : PartitionRange) (batches : List (List ℤ)) =>
        ∀ a ∈ batches.flatten, r.start ≤ a ∧ a < r.end) [⟨0, 10⟩, ⟨5, 15⟩] [[[7, 2]], []] ∧
      (WindowedSortExec.tryNew (fun a : ℤ => a) ⟨false, false⟩ none [[⟨0, 10⟩, ⟨5, 15⟩]]).map
        (fun exec => exec.execute 0 [[[7, 2]], []].flatten) = .ok (.error .leftOfWorkingRange) := by
  decide

end WindowSort

end Greptime
