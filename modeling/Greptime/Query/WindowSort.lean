import Greptime.Query.SortedRuns
import Greptime.Query.WorkingRange
import Greptime.Foundations.Except

/-!
# The windowed sort (`WindowedSortExec`, `WindowedSortStream`)

`WindowedSortExec` sorts a stream that comes range by range: the input of a partition yields the
rows of its `PartitionRange`s in the order of the list.  From the ranges it computes, once, the
working ranges (`split_overlapping_ranges`, then `compute_all_working_ranges`), with the
promise that once the input has a value beyond the current working range, no later value falls
back into it.  The stream then sorts each working range by itself:

* every input batch is cut into sorted runs (`split_batch_to_sorted_run`);
* a run inside the current working range joins the runs in progress, concatenated to the last
  one while the values stay in order (`try_concat_batch`);
* a run that reaches past the working range is cut at its end by bisection; its head joins the
  runs in progress, the runs of the working range are merge-sorted (`start_new_merge_sort`),
  the stream moves to the next working range and the rest of the run is read again there;
* a run outside the working range closes it the same way and is read again in the next one.

The sorted streams wait in a queue that `poll_result_stream` empties, batch by batch, before
`poll_next_inner` reads the next input batch, stopping when `fetch` rows have been produced.
The model yields the whole queue at once after each input batch (`pollResults`), which yields
the same batches in the same order.  The input is never pending and never fails: a stream of
the model is the list of its batches.

Left out: memory reservations and metrics, the debug report of `check_subset_ranges`, the
conversions of time units, and the `batch_size` of the merge, whose batches are cut again by
`fetch` exactly where the model cuts its single batch.
-/

namespace Greptime

namespace WindowSort

/-- The first `fetch` rows of a list, all of them when `fetch = None`. -/
def truncate {α : Type} (fetch : Option ℕ) (l : List α) : List α :=
  match fetch with
  | some k => l.take k
  | none => l

/-- The rows of sorted streams merged in the order `le`, rows that compare equal in the order of
their streams. -/
def mergeAll {α : Type} (le : α → α → Bool) (streams : List (List (List α))) : List α :=
  streams.foldl (fun merged s => merged.merge s.flatten le) []

/-- `StreamingMerge` of sorted streams, cut at `fetch` rows. -/
def streamingMerge {α : Type} (le : α → α → Bool) (fetch : Option ℕ)
    (streams : List (List (List α))) : List α :=
  truncate fetch (mergeAll le streams)

/-! ## Cutting at `fetch` and merging -/

section Merge

variable {α : Type}

@[simp] lemma truncate_none (l : List α) : truncate none l = l := rfl

@[simp] lemma truncate_some (k : ℕ) (l : List α) : truncate (some k) l = l.take k := rfl

/-- Two lists whose first `k` rows agree still agree after the same rows are appended. -/
lemma take_append_congr {k : ℕ} {A B : List α} (h : A.take k = B.take k) (X : List α) :
    (A ++ X).take k = (B ++ X).take k := by
  have hlen : k - A.length = k - B.length := by
    have := congrArg List.length h
    simp only [List.length_take] at this
    omega
  rw [List.take_append, List.take_append, h, hlen]

lemma truncate_append_congr {fetch : Option ℕ} {A B : List α}
    (h : truncate fetch A = truncate fetch B) (X : List α) :
    truncate fetch (A ++ X) = truncate fetch (B ++ X) := by
  cases fetch with
  | none => simp only [truncate_none] at h ⊢; rw [h]
  | some k => exact take_append_congr h X

/-- Cutting what is appended after `p` rows at what `fetch` leaves of them changes nothing once
the whole is cut at `fetch`. -/
lemma truncate_append_truncate {fetch : Option ℕ} {p : ℕ} {A : List α} (hp : p ≤ A.length)
    (M : List α) :
    truncate fetch (A ++ truncate (fetch.map fun k => k - p) M) = truncate fetch (A ++ M) := by
  cases fetch with
  | none => rfl
  | some k =>
    simp only [truncate_some, Option.map_some, List.take_append, List.take_take]
    congr 2
    omega

lemma foldl_merge_perm (le : α → α → Bool) (streams : List (List (List α))) (acc : List α) :
    (streams.foldl (fun merged s => merged.merge s.flatten le) acc).Perm
      (acc ++ (streams.map List.flatten).flatten) := by
  induction streams generalizing acc with
  | nil => simp
  | cons s streams ih =>
    refine (ih _).trans ?_
    simp only [List.map_cons, List.flatten_cons, ← List.append_assoc]
    exact (List.merge_perm_append le).append_right _

/-- The merge holds the rows of the streams. -/
lemma mergeAll_perm (le : α → α → Bool) (streams : List (List (List α))) :
    (mergeAll le streams).Perm (streams.map List.flatten).flatten :=
  foldl_merge_perm le streams []

/-- The merge of sorted streams is sorted, for a total preorder. -/
lemma mergeAll_sorted {le : α → α → Bool} (trans : ∀ a b c, le a b → le b c → le a c)
    (total : ∀ a b, le a b || le b a) {streams : List (List (List α))}
    (h : ∀ s ∈ streams, s.flatten.Pairwise fun a b => le a b) :
    (mergeAll le streams).Pairwise fun a b => le a b := by
  suffices hacc : ∀ acc : List α, (acc.Pairwise fun a b => le a b) →
      (streams.foldl (fun merged s => merged.merge s.flatten le) acc).Pairwise fun a b => le a b from
    hacc [] List.Pairwise.nil
  induction streams with
  | nil => exact fun acc hacc => hacc
  | cons s streams ih =>
    intro acc hacc
    exact ih (fun s' hs' => h s' (List.mem_cons_of_mem _ hs')) _
      (List.pairwise_merge trans total _ _ hacc (h s List.mem_cons_self))

end Merge

/-- `check_partition_range_monotonicity`: the ranges of each partition come in the order of
the sort, by their lower bounds ascending or their upper bounds descending. -/
def checkPartitionRangeMonotonicity (ranges : List (List PartitionRange)) (descending : Bool) :
    Except String Unit :=
  let isValid := ranges.all fun r =>
    if descending then (r.zip r.tail).all fun w => w.1.end ≥ w.2.end
    else (r.zip r.tail).all fun w => w.1.start ≤ w.2.start
  if !isValid then
    .error (if descending then
        "Input `PartitionRange`s's upper bound is not monotonic non-increase"
      else "Input `PartitionRange`s's lower bound is not monotonic non-decrease")
  else .ok ()

/-- Every window of two of a list whose starts do not decrease is in order. -/
lemma all_zip_tail_start_of_pairwise :
    ∀ {r : List PartitionRange}, r.Pairwise (fun a b => a.start ≤ b.start) →
      ((r.zip r.tail).all fun w => decide (w.1.start ≤ w.2.start)) = true
  | [], _ => rfl
  | [_], _ => rfl
  | a :: b :: rest, h => by
    have htail := all_zip_tail_start_of_pairwise (List.pairwise_cons.mp h).2
    simp only [List.tail_cons, List.zip_cons_cons, List.all_cons, Bool.and_eq_true,
      decide_eq_true_eq] at htail ⊢
    exact ⟨List.rel_of_pairwise_cons h List.mem_cons_self, htail⟩

/-- Partitions whose ranges come by start pass the ascending check. -/
lemma checkPartitionRangeMonotonicity_of_pairwise {ranges : List (List PartitionRange)}
    (h : ∀ r ∈ ranges, r.Pairwise fun a b => a.start ≤ b.start) :
    checkPartitionRangeMonotonicity ranges false = .ok () := by
  have hvalid : (ranges.all fun r => (r.zip r.tail).all fun w => decide (w.1.start ≤ w.2.start))
      = true := List.all_eq_true.mpr fun r hr => all_zip_tail_start_of_pairwise (h r hr)
  simp only [checkPartitionRangeMonotonicity, Bool.false_eq_true, if_false, hvalid, Bool.not_true]

/-- `WindowedSortStream`: the sort expression (the time index of a row and the options of the
sort), `fetch`, the working ranges of its partition, and the state of the sort. -/
structure WindowedSortStream (α : Type) where
  key : α → ℤ
  opts : SortOptions
  fetch : Option ℕ
  allAvailWorkingRange : List (TimeRange × Finset ℕ)
  /-- the batches of the run in progress, in order -/
  inProgress : List (List α)
  /-- the last value of the run in progress -/
  lastValue : Option ℤ
  /-- the sorted runs of the current working range, each a stream of batches -/
  sortedInputRuns : List (List (List α))
  /-- the sorted streams waiting to be output -/
  mergeStream : List (List (List α))
  workingIdx : ℕ
  isTerminated : Bool
  produced : ℕ

namespace WindowedSortStream

variable {α : Type}

/-- `WindowedSortStream::new`. -/
def new (key : α → ℤ) (opts : SortOptions) (fetch : Option ℕ)
    (allAvailWorkingRange : List (TimeRange × Finset ℕ)) : WindowedSortStream α :=
  ⟨key, opts, fetch, allAvailWorkingRange, [], none, [], [], 0, false, 0⟩

/-- Two rows in the order of the sort expression. -/
def rowLe (st : WindowedSortStream α) (a b : α) : Bool := sortLe st.key st.opts a b

/-- `remaining_fetch`: `None` without a limit, `Some 0` once it is reached. -/
def remainingFetch (st : WindowedSortStream α) : Option ℕ :=
  st.fetch.map fun p => p - st.produced

/-- `get_working_range`. -/
def getWorkingRange (st : WindowedSortStream α) : Option TimeRange :=
  (st.allAvailWorkingRange[st.workingIdx]?).map Prod.fst

/-- `build_sorted_stream`: the run in progress becomes a sorted stream. -/
def buildSortedStream (st : WindowedSortStream α) : WindowedSortStream α :=
  if st.inProgress.isEmpty then st
  else { st with inProgress := [], sortedInputRuns := st.sortedInputRuns ++ [st.inProgress] }

/-- `start_new_merge_sort`: the sorted streams of the working range are merged into one output
stream, a single one taken as it is, and the stream moves to the next working range. -/
def startNewMergeSort (st : WindowedSortStream α) : Except StreamError (WindowedSortStream α) :=
  if !st.inProgress.isEmpty then .error .mergeWithInProgress
  else
    let streams := st.sortedInputRuns
    let st := { st with workingIdx := st.workingIdx + 1, sortedInputRuns := [] }
    match streams with
    | [] => .ok st
    | [s] => .ok { st with mergeStream := st.mergeStream ++ [s] }
    | streams =>
      -- the merge is cut at what `fetch` leaves when it starts
      let merged := streamingMerge st.rowLe st.remainingFetch streams
      .ok { st with mergeStream := st.mergeStream ++ [if merged.isEmpty then [] else [merged]] }

/-- `try_concat_batch`: a batch whose first value is not below the last one goes on with the run
in progress, any other starts a new run. -/
def tryConcatBatch (st : WindowedSortStream α) (batch : List α) (runInfo : SucRun) :
    WindowedSortStream α :=
  let isOkToConcat := cmpWithOpts st.lastValue runInfo.firstVal st.opts != .gt
  let st := if isOkToConcat then st else st.buildSortedStream
  { st with inProgress := st.inProgress ++ [batch], lastValue := runInfo.lastVal }

/-- The body of the loop of `poll_next_inner` over the runs of a batch, on one run and on the
rest of it that the loop reads again.  The source slices the sort column of the batch at the
run's offset; that column is the time index of the run's rows, `sortedRb.map st.key`.  Every
turn that reads a run again has moved to the next working range, so that one more turn than
there are working ranges ends with `No working range found` at the latest: the fuel runs out
only there. -/
def processRun (st : WindowedSortStream α) : ℕ → List α × SucRun →
    Except StreamError (WindowedSortStream α)
  | 0, _ => .error .noWorkingRange
  | fuel + 1, (sortedRb, runInfo) =>
    if sortedRb.length = 0 then .ok st
    else
      match runInfo.getTimeRange, st.getWorkingRange with
      | none, _ => .error .nullInTimeIndex
      | some _, none => .error .noWorkingRange
      | some curRange, some workingRange =>
        if st.opts.descending ∧ curRange.end > workingRange.end then .error .rightOfWorkingRange
        else if !st.opts.descending ∧ curRange.start < workingRange.start then
          .error .leftOfWorkingRange
        else if curRange.isSubset workingRange then .ok (st.tryConcatBatch sortedRb runInfo)
        else
          match curRange.intersection workingRange with
          | some intersection =>
            let slice := findSliceFromRange (sortedRb.map st.key) st.opts intersection
            if slice.1 ≠ 0 then .error .leftOfWorkingRange
            else do
              let st' ← ((st.tryConcatBatch ((sortedRb.drop slice.1).take slice.2)
                runInfo).buildSortedStream).startNewMergeSort
              let rOffset := slice.1 + slice.2
              let rLen := sortedRb.length - slice.1 - slice.2
              if rLen ≠ 0 then
                processRun st' fuel ((sortedRb.drop rOffset).take rLen,
                  ⟨runInfo.offset + rOffset, rLen, (sortedRb.map st.key)[rOffset]?,
                    runInfo.lastVal⟩)
              else .ok st'
          | none => do
            let st' ← st.buildSortedStream.startNewMergeSort
            processRun st' fuel (sortedRb, runInfo)

/-- The loop of `poll_next_inner` over the runs of one input batch. -/
def processRuns (st : WindowedSortStream α) (runs : List (List α × SucRun)) :
    Except StreamError (WindowedSortStream α) :=
  runs.foldlM (fun st run => st.processRun (st.allAvailWorkingRange.length + 1) run) st

/-- `poll_result_stream` until it yields nothing: the batches of the queued streams in order,
the one that reaches `fetch` cut there; a batch polled when nothing is left to fetch ends the
stream.  It returns the output, the rows produced and whether the stream ended. -/
def emitBatches (fetch : Option ℕ) : ℕ → List (List α) → List (List α) × ℕ × Bool
  | produced, [] => ([], produced, false)
  | produced, batch :: rest =>
    match fetch.map fun p => p - produced with
    | some 0 => ([], produced, true)
    | some remaining =>
      if remaining < batch.length then
        let r := emitBatches fetch (produced + remaining) rest
        (batch.take remaining :: r.1, r.2)
      else
        let r := emitBatches fetch (produced + batch.length) rest
        (batch :: r.1, r.2)
    | none =>
      let r := emitBatches fetch (produced + batch.length) rest
      (batch :: r.1, r.2)

/-- The output batches of the queue, and the stream after it. -/
def pollResults (st : WindowedSortStream α) : List (List α) × WindowedSortStream α :=
  let r := emitBatches st.fetch st.produced st.mergeStream.flatten
  (r.1, { st with mergeStream := [], produced := r.2.1, isTerminated := st.isTerminated || r.2.2 })

/-- `poll_next_inner` over a whole input: every batch is cut into runs and sorted into the
working ranges, and what is ready is output before the next batch is read; at the end of the
input what is left is merged and output. -/
def consume (st : WindowedSortStream α) : List (List α) → Except StreamError (List (List α))
  | [] => do
    let st ← { st with isTerminated := true }.buildSortedStream.startNewMergeSort
    pure st.pollResults.1
  | batch :: rest => do
    let runs ← splitBatchToSortedRun st.key st.opts batch
    let st ← st.processRuns runs
    let r := st.pollResults
    if r.2.isTerminated then pure r.1
    else do
      let more ← r.2.consume rest
      pure (r.1 ++ more)

/-! ## What each step does

`pending` is what the stream holds of the current working range: the sorted runs and the run in
progress, in order.  The lemmas below say what each step does to it and to the queue, so that
the proofs of the sort never unfold a step. -/

/-- The rows of the current working range that the stream holds, in order. -/
def pending (st : WindowedSortStream α) : List α :=
  (st.sortedInputRuns.map List.flatten).flatten ++ st.inProgress.flatten

variable (st : WindowedSortStream α)

lemma buildSortedStream_eq : st.buildSortedStream =
    { st with
      inProgress := []
      sortedInputRuns :=
        if st.inProgress = [] then st.sortedInputRuns else st.sortedInputRuns ++ [st.inProgress] } := by
  cases st with
  | mk key opts fetch W inProgress lastValue runs queue idx term produced =>
    cases inProgress <;> simp [buildSortedStream]

@[simp] lemma pending_buildSortedStream : st.buildSortedStream.pending = st.pending := by
  rw [buildSortedStream_eq]
  split_ifs with h <;> simp [pending, h]

@[simp] lemma inProgress_buildSortedStream : st.buildSortedStream.inProgress = [] := by
  rw [buildSortedStream_eq]

@[simp] lemma workingIdx_buildSortedStream : st.buildSortedStream.workingIdx = st.workingIdx := by
  rw [buildSortedStream_eq]

@[simp] lemma isTerminated_buildSortedStream :
    st.buildSortedStream.isTerminated = st.isTerminated := by
  rw [buildSortedStream_eq]

/-- The batch joins the pending rows at their end, whether it goes on with the run in progress
or starts a new one. -/
@[simp] lemma pending_tryConcatBatch (batch : List α) (runInfo : SucRun) :
    (st.tryConcatBatch batch runInfo).pending = st.pending ++ batch := by
  by_cases h : cmpWithOpts st.lastValue runInfo.firstVal st.opts = .gt
  · have hb := pending_buildSortedStream st
    simp only [pending] at hb
    simp only [tryConcatBatch, h, bne_self_eq_false, Bool.false_eq_true, if_false, pending,
      List.flatten_append, List.flatten_singleton, ← List.append_assoc, hb]
  · simp [tryConcatBatch, h, pending]

/-- The fields that `try_concat_batch` leaves alone. -/
lemma tryConcatBatch_frame (batch : List α) (runInfo : SucRun) :
    (st.tryConcatBatch batch runInfo).key = st.key ∧ (st.tryConcatBatch batch runInfo).opts = st.opts ∧
      (st.tryConcatBatch batch runInfo).fetch = st.fetch ∧
      (st.tryConcatBatch batch runInfo).allAvailWorkingRange = st.allAvailWorkingRange ∧
      (st.tryConcatBatch batch runInfo).mergeStream = st.mergeStream ∧
      (st.tryConcatBatch batch runInfo).workingIdx = st.workingIdx ∧
      (st.tryConcatBatch batch runInfo).produced = st.produced ∧
      (st.tryConcatBatch batch runInfo).isTerminated = st.isTerminated := by
  by_cases h : cmpWithOpts st.lastValue runInfo.firstVal st.opts = .gt <;>
    simp [tryConcatBatch, h, buildSortedStream_eq]

/-- `try_concat_batch` goes on with the run in progress, or closes it and starts a new one. -/
lemma tryConcatBatch_cases (batch : List α) (runInfo : SucRun) :
    (cmpWithOpts st.lastValue runInfo.firstVal st.opts ≠ .gt ∧
      st.tryConcatBatch batch runInfo =
        { st with inProgress := st.inProgress ++ [batch], lastValue := runInfo.lastVal }) ∨
    (cmpWithOpts st.lastValue runInfo.firstVal st.opts = .gt ∧
      st.tryConcatBatch batch runInfo =
        { st.buildSortedStream with inProgress := [batch], lastValue := runInfo.lastVal }) := by
  by_cases h : cmpWithOpts st.lastValue runInfo.firstVal st.opts = .gt
  · refine .inr ⟨h, ?_⟩
    simp [tryConcatBatch, h, buildSortedStream_eq]
  · refine .inl ⟨h, ?_⟩
    simp [tryConcatBatch, h]

/-- `start_new_merge_sort` after `build_sorted_stream`: the next working range, and at the end of
the queue the merge of the sorted runs, cut at what `fetch` leaves or not cut at all. -/
lemma startNewMergeSort_eq_ok (h : st.inProgress = []) :
    ∃ added, st.startNewMergeSort = .ok
        { st with
          workingIdx := st.workingIdx + 1
          sortedInputRuns := []
          mergeStream := st.mergeStream ++ added } ∧
      (added.flatten.flatten = mergeAll st.rowLe st.sortedInputRuns ∨
        added.flatten.flatten = truncate st.remainingFetch (mergeAll st.rowLe st.sortedInputRuns)) := by
  unfold startNewMergeSort
  simp only [h, List.isEmpty_nil, Bool.not_true, Bool.false_eq_true, if_false]
  match hs : st.sortedInputRuns with
  | [] => exact ⟨[], by simp, .inl (by simp [mergeAll])⟩
  | [s] => exact ⟨[s], rfl, .inl (by simp [mergeAll])⟩
  | s₁ :: s₂ :: streams =>
    refine ⟨[if (streamingMerge st.rowLe st.remainingFetch (s₁ :: s₂ :: streams)).isEmpty then []
      else [streamingMerge st.rowLe st.remainingFetch (s₁ :: s₂ :: streams)]], rfl, .inr ?_⟩
    split_ifs with he
    · simpa [streamingMerge] using he
    · simp [streamingMerge]

/-! ### The branches of `processRun`

A non-empty run with its time range, in a working range that the checks of the direction let
through, is concatenated whole, cut at the end of the working range, or put back after the
working range is closed. -/

section Branches

variable {fuel : ℕ} {sortedRb : List α} {runInfo : SucRun} {curRange workingRange : TimeRange}

/-- An empty run leaves the stream as it is. -/
lemma processRun_nil : st.processRun (fuel + 1) ([], runInfo) = .ok st := by
  simp [processRun]

/-- The run is in the working range: it joins the runs in progress. -/
lemma processRun_of_isSubset (hne : sortedRb ≠ [])
    (hcur : runInfo.getTimeRange = some curRange) (hw : st.getWorkingRange = some workingRange)
    (hright : ¬(st.opts.descending = true ∧ curRange.end > workingRange.end))
    (hleft : ¬((!st.opts.descending) = true ∧ curRange.start < workingRange.start))
    (hsub : curRange.isSubset workingRange = true) :
    st.processRun (fuel + 1) (sortedRb, runInfo) = .ok (st.tryConcatBatch sortedRb runInfo) := by
  have hlen : sortedRb.length ≠ 0 := fun h => hne (List.eq_nil_of_length_eq_zero h)
  simp only [processRun, hlen, hcur, hw, hright, hleft, hsub, if_false, if_true]

/-- The run reaches past the working range: its slice in the range joins the runs in progress,
the working range is merged, and the rest of the run is read again in the next one. -/
lemma processRun_of_intersection (hne : sortedRb ≠ [])
    (hcur : runInfo.getTimeRange = some curRange) (hw : st.getWorkingRange = some workingRange)
    (hright : ¬(st.opts.descending = true ∧ curRange.end > workingRange.end))
    (hleft : ¬((!st.opts.descending) = true ∧ curRange.start < workingRange.start))
    (hsub : curRange.isSubset workingRange = false) {intersection : TimeRange}
    (hint : curRange.intersection workingRange = some intersection) {len : ℕ}
    (hslice : findSliceFromRange (sortedRb.map st.key) st.opts intersection = (0, len)) :
    st.processRun (fuel + 1) (sortedRb, runInfo) =
      (((st.tryConcatBatch (sortedRb.take len) runInfo).buildSortedStream).startNewMergeSort >>=
        fun st' => if sortedRb.length - len ≠ 0 then
          st'.processRun fuel (sortedRb.drop len,
            ⟨runInfo.offset + len, sortedRb.length - len, (sortedRb.map st.key)[len]?,
              runInfo.lastVal⟩)
        else .ok st') := by
  have hlen : sortedRb.length ≠ 0 := fun h => hne (List.eq_nil_of_length_eq_zero h)
  have hdrop : (sortedRb.drop len).take (sortedRb.length - len) = sortedRb.drop len :=
    List.take_of_length_le (by simp)
  simp only [processRun, hlen, hcur, hw, hright, hleft, hsub, hint, hslice, if_false,
    Bool.false_eq_true, ne_eq, not_true_eq_false, List.drop_zero, Nat.zero_add, hdrop, Nat.sub_zero]

/-- The run is past the working range: the working range is merged and the run is read again in
the next one. -/
lemma processRun_of_disjoint (hne : sortedRb ≠ [])
    (hcur : runInfo.getTimeRange = some curRange) (hw : st.getWorkingRange = some workingRange)
    (hright : ¬(st.opts.descending = true ∧ curRange.end > workingRange.end))
    (hleft : ¬((!st.opts.descending) = true ∧ curRange.start < workingRange.start))
    (hsub : curRange.isSubset workingRange = false)
    (hint : curRange.intersection workingRange = none) :
    st.processRun (fuel + 1) (sortedRb, runInfo) =
      (st.buildSortedStream.startNewMergeSort >>= fun st' => st'.processRun fuel (sortedRb, runInfo)) := by
  have hlen : sortedRb.length ≠ 0 := fun h => hne (List.eq_nil_of_length_eq_zero h)
  simp only [processRun, hlen, hcur, hw, hright, hleft, hsub, hint, if_false, Bool.false_eq_true]

end Branches

/-- What `poll_result_stream` yields of queued batches after `produced` rows: their rows up to
`fetch`, and it ends the stream only once `fetch` rows are out. -/
lemma emitBatches_spec (fetch : Option ℕ) (produced : ℕ) (batches : List (List α))
    (hle : ∀ k, fetch = some k → produced ≤ k) :
    (emitBatches fetch produced batches).1.flatten =
        truncate (fetch.map fun k => k - produced) batches.flatten ∧
      (emitBatches fetch produced batches).2.1 =
        produced + (emitBatches fetch produced batches).1.flatten.length ∧
      ((emitBatches fetch produced batches).2.2 = true →
        fetch = some (emitBatches fetch produced batches).2.1) := by
  induction batches generalizing produced with
  | nil => cases fetch <;> simp [emitBatches]
  | cons b bs ih =>
    cases fetch with
    | none =>
      obtain ⟨h₁, h₂, h₃⟩ := ih (produced + b.length) (by simp)
      simp only [emitBatches, Option.map_none, List.flatten_cons, truncate_none] at h₁ h₂ h₃ ⊢
      refine ⟨by rw [h₁], by rw [h₂, List.length_append]; omega, h₃⟩
    | some k =>
      have hk := hle k rfl
      by_cases h0 : k - produced = 0
      · have hpk : produced = k := by omega
        simp [emitBatches, hpk]
      obtain ⟨r, hr⟩ : ∃ r, k - produced = r + 1 := Nat.exists_eq_succ_of_ne_zero h0
      by_cases hlt : r + 1 < b.length
      · -- the batch reaches `fetch`: it is cut there and nothing is left to fetch after it
        obtain ⟨h₁, h₂, h₃⟩ := ih (produced + (r + 1)) (fun k' hk' => by cases hk'; omega)
        have hnil : k - (produced + (r + 1)) = 0 := by omega
        simp only [emitBatches, Option.map_some, hr, hlt, if_true, List.flatten_cons,
          truncate_some, hnil, List.take_zero] at h₁ h₂ h₃ ⊢
        refine ⟨?_, ?_, h₃⟩
        · rw [h₁, List.append_nil, List.take_append_of_le_length (by omega)]
        · rw [h₂, h₁, List.length_append, List.length_take]
          simp only [List.length_nil]
          omega
      · obtain ⟨h₁, h₂, h₃⟩ := ih (produced + b.length) (fun k' hk' => by cases hk'; omega)
        simp only [emitBatches, Option.map_some, hr, hlt, if_false, List.flatten_cons,
          truncate_some] at h₁ h₂ h₃ ⊢
        refine ⟨?_, ?_, h₃⟩
        · have hrest : k - (produced + b.length) = r + 1 - b.length := by omega
          rw [h₁, List.take_append, List.take_of_length_le (show b.length ≤ r + 1 by omega), hrest]
        · rw [h₂, List.length_append]
          omega

lemma pollResults_spec (hle : ∀ k, st.fetch = some k → st.produced ≤ k) :
    st.pollResults.1.flatten = truncate st.remainingFetch st.mergeStream.flatten.flatten ∧
      st.pollResults.2 =
        { st with
          mergeStream := []
          produced := st.produced + st.pollResults.1.flatten.length
          isTerminated := st.isTerminated || st.pollResults.2.isTerminated } ∧
      (st.pollResults.2.isTerminated = true → st.isTerminated = true ∨
        st.fetch = some (st.produced + st.pollResults.1.flatten.length)) := by
  obtain ⟨h₁, h₂, h₃⟩ := emitBatches_spec st.fetch st.produced st.mergeStream.flatten hle
  simp only [pollResults, remainingFetch, List.flatten_flatten] at h₁ h₂ h₃ ⊢
  refine ⟨h₁, by rw [← h₂]; simp, ?_⟩
  intro ht
  rcases Bool.or_eq_true_iff.mp ht with h | h
  · exact .inl h
  · exact .inr (h₂ ▸ h₃ h)

end WindowedSortStream

/-- `WindowedSortExec`: the sort expression, `fetch`, the ranges of each partition and the
working ranges computed from them. -/
structure WindowedSortExec (α : Type) where
  key : α → ℤ
  opts : SortOptions
  fetch : Option ℕ
  ranges : List (List PartitionRange)
  allAvailWorkingRange : List (List (TimeRange × Finset ℕ))

namespace WindowedSortExec

variable {α : Type}

/-- `WindowedSortExec::try_new`. -/
def tryNew (key : α → ℤ) (opts : SortOptions) (fetch : Option ℕ)
    (ranges : List (List PartitionRange)) : Except String (WindowedSortExec α) := do
  checkPartitionRangeMonotonicity ranges opts.descending
  pure ⟨key, opts, fetch, ranges, ranges.map fun r =>
    computeAllWorkingRanges (splitOverlappingRanges r) opts.descending⟩

/-- The output of the stream of one partition (`to_stream`) on the input of that partition. -/
def execute (exec : WindowedSortExec α) (partition : ℕ) (input : List (List α)) :
    Except StreamError (List (List α)) :=
  (WindowedSortStream.new exec.key exec.opts exec.fetch
    (exec.allAvailWorkingRange[partition]?.getD [])).consume input

end WindowedSortExec

end WindowSort

end Greptime
