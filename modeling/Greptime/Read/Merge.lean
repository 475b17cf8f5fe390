import Greptime.Read.Batch
import Greptime.Foundations.Heap

/-!
# Merging sorted sources (`mito2::read::merge`)

`MergeReader` merges sources whose batches are sorted by `(primary key, timestamp asc,
sequence desc)` into one such stream of batches, without concatenating batches.  It keeps a
`Node` per source that has not reached EOF, in one of two heaps ordered by the first row of
the node's current batch (`CompareFirst`).  The root of the *hot* heap spans the merge window,
from its first to its last `(primary key, timestamp)`; the hot heap holds the nodes that may
overlap it, and the *cold* heap the nodes that are entirely behind it (`Node::is_behind`).

With one hot node the reader outputs its current batch whole.  With more, it outputs the rows
of the root up to the first timestamp of the next hot node, found by binary search: all of them
when that timestamp is not in the root's batch, the rows before it when it is, and the root's
first row alone when that row has the timestamp itself.  After each output the root goes back
to the hot or the cold heap (`reheap`) and cold nodes that now overlap the merge window move to
the hot heap (`refill_hot`).

A node is a source with a current batch: the model builds the sources' requirements into
`Source` and `Node` (no batch is empty, the rows are sorted, no batch repeats a timestamp), and
an EOF node is simply no node.  The heaps are the list model of `Heap`.  The loops of
`next_batch` and of its consumer are bounded by fuel; the reader always makes progress
(`MergeReader.Inv`), so enough fuel runs it to the end.  Metrics are left out.
-/

namespace Greptime

open Heap

variable {K V : Type}

/-! ## Slices and sorted streams of batches -/

namespace Batch

lemma slice_entries (b : Batch K V) (offset length : ℕ) :
    (b.slice offset length).entries = (b.entries.drop offset).take length := rfl

@[simp] lemma primaryKey_slice (b : Batch K V) (offset length : ℕ) :
    (b.slice offset length).primaryKey = b.primaryKey := rfl

lemma slice_entries_sublist (b : Batch K V) (offset length : ℕ) :
    (b.slice offset length).entries.Sublist b.entries :=
  (List.take_sublist _ _).trans (List.drop_sublist _ _)

lemma rows_slice_sublist (b : Batch K V) (offset length : ℕ) :
    (b.slice offset length).rows.Sublist b.rows :=
  (b.slice_entries_sublist offset length).map _

/-- A slice of a slice is a slice. -/
lemma slice_slice (b : Batch K V) (i l j m : ℕ) :
    (b.slice i l).slice j m = b.slice (i + j) (min m (l - j)) := by
  simp only [slice, List.drop_take, List.drop_drop, List.take_take]

lemma slice_zero_numRows (b : Batch K V) : b.slice 0 b.numRows = b := by
  simp [slice, numRows]

lemma key_of_mem_rows {b : Batch K V} {x : Row K V} (hx : x ∈ b.rows) : x.key = b.primaryKey := by
  obtain ⟨e, -, rfl⟩ := List.mem_map.mp hx
  rfl

/-- The first `length` rows and the rows after them. -/
lemma rows_slice_append (b : Batch K V) (length : ℕ) :
    (b.slice 0 length).rows ++ (b.slice length (b.numRows - length)).rows = b.rows := by
  have htake : (b.entries.drop length).take (b.numRows - length) = b.entries.drop length :=
    List.take_of_length_le (by simp [numRows])
  simp only [rows, slice, List.drop_zero, htake, ← List.map_append, List.take_append_drop]

end Batch

variable [LinearOrder K]

namespace MergeSorted

variable {b : Batch K V} {bs : List (Batch K V)}

lemma of_cons (h : MergeSorted (b :: bs)) : MergeSorted bs where
  sorted := (List.pairwise_append.mp (by simpa [RowsSorted] using h.sorted)).2.1
  nodupTs b' hb' := h.nodupTs b' (List.mem_cons_of_mem _ hb')

/-- A sorted batch in front of a sorted stream whose rows it precedes. -/
lemma cons (hb : RowsSorted b.rows) (hnodup : (b.entries.map Entry.ts).Nodup)
    (hbs : MergeSorted bs) (hfirst : ∀ x ∈ b.rows, ∀ y ∈ bs.flatMap Batch.rows, Row.Precedes x y) :
    MergeSorted (b :: bs) where
  sorted := by
    rw [List.flatMap_cons]
    exact List.pairwise_append.mpr ⟨hb, hbs.sorted, hfirst⟩
  nodupTs b' hb' := by
    rcases List.mem_cons.mp hb' with rfl | hb'
    · exact hnodup
    · exact hbs.nodupTs b' hb'

/-- Rows may be cut off the front batch. -/
lemma slice_cons (h : MergeSorted (b :: bs)) (offset length : ℕ) :
    MergeSorted (b.slice offset length :: bs) where
  sorted := by
    have hsub : ((b.slice offset length) :: bs).flatMap Batch.rows |>.Sublist
        ((b :: bs).flatMap Batch.rows) := by
      simpa using (b.rows_slice_sublist offset length).append_right (bs.flatMap Batch.rows)
    exact h.sorted.sublist hsub
  nodupTs b' hb' := by
    rcases List.mem_cons.mp hb' with rfl | hb'
    · exact (h.nodupTs b List.mem_cons_self).sublist
        ((b.slice_entries_sublist offset length).map _)
    · exact h.nodupTs b' (List.mem_cons_of_mem _ hb')

end MergeSorted

/-! ## Sources and nodes -/

/-- A source of a `MergeReader`: the batches it yields, none of them empty, their rows sorted
and no batch with a repeated timestamp. -/
structure Source (K V : Type) [LinearOrder K] where
  batches : List (Batch K V)
  nonempty : ∀ b ∈ batches, b.entries ≠ []
  mergeSorted : MergeSorted batches

/-- `Node`: a source that has not reached EOF, with its current batch, which is not empty, and
the batches it has yet to yield. -/
structure Node (K V : Type) [LinearOrder K] where
  current : Batch K V
  rest : List (Batch K V)
  current_ne : current.entries ≠ []
  rest_ne : ∀ b ∈ rest, b.entries ≠ []
  mergeSorted : MergeSorted (current :: rest)

namespace Node

/-- A node reading the given batches, or `None` (EOF) when there are none. -/
def ofBatches : (bs : List (Batch K V)) → (∀ b ∈ bs, b.entries ≠ []) → MergeSorted bs →
    Option (Node K V)
  | [], _, _ => none
  | b :: bs, hne, hsorted =>
    some ⟨b, bs, hne b List.mem_cons_self, fun b' hb' => hne b' (List.mem_cons_of_mem _ hb'),
      hsorted⟩

/-- `Node::new`: fetches the first batch of the source. -/
def new (source : Source K V) : Option (Node K V) :=
  ofBatches source.batches source.nonempty source.mergeSorted

/-- `Node::primary_key`. -/
def primaryKey (n : Node K V) : K := n.current.primaryKey

/-- The first row of the current batch. -/
def firstEntry (n : Node K V) : Entry V := n.current.entries.head n.current_ne

/-- The last row of the current batch. -/
def lastEntry (n : Node K V) : Entry V := n.current.entries.getLast n.current_ne

/-- `first_timestamp().unwrap()` of the current batch. -/
def firstTs (n : Node K V) : ℤ := n.firstEntry.ts

/-- `first_sequence().unwrap()` of the current batch. -/
def firstSeq (n : Node K V) : ℕ := n.firstEntry.seq

/-- `last_timestamp().unwrap()` of the current batch. -/
def lastTs (n : Node K V) : ℤ := n.lastEntry.ts

/-- `Ord for CompareFirst` on the current batches: primary key, then first timestamp, then
first sequence descending.  `BinaryHeap` is a max-heap and `Ord for Node` is reversed, so a
heap of nodes pops the least node of this order. -/
def cmp (a b : Node K V) : Ordering :=
  ((compare a.primaryKey b.primaryKey).then (compare a.firstTs b.firstTs)).then
    (compare b.firstSeq a.firstSeq)

/-- `Node::is_behind`: the first `(primary key, timestamp)` of `self` is after the last one of
`other`. -/
def isBehind (self other : Node K V) : Bool :=
  ((compare self.primaryKey other.primaryKey).then (compare self.firstTs other.lastTs)) == .gt

/-- `Node::fetch_batch`: the current batch, and the node on its next batch (`None` at EOF). -/
def fetchBatch (n : Node K V) : Batch K V × Option (Node K V) :=
  (n.current, ofBatches n.rest n.rest_ne n.mergeSorted.of_cons)

/-- `Node::skip_rows`: drops the first `numToSkip` rows, and fetches the next batch when
nothing remains. -/
def skipRows (n : Node K V) (numToSkip : ℕ) : Option (Node K V) :=
  let remaining := n.current.numRows - numToSkip
  if h : remaining = 0 then n.fetchBatch.2
  else
    some ⟨n.current.slice numToSkip remaining, n.rest, by
      rw [Batch.slice_entries, ← List.length_pos_iff_ne_nil, List.length_take,
        List.length_drop]
      simp only [Batch.numRows, remaining] at h ⊢
      omega, n.rest_ne, n.mergeSorted.slice_cons _ _⟩

end Node

/-! ## The reader -/

/-- `MergeReader`: the hot heap, the cold heap and the batch to output. -/
structure MergeReader (K V : Type) [LinearOrder K] where
  hot : List (Node K V)
  cold : List (Node K V)
  outputBatch : Option (Batch K V)

/-- `slice::binary_search` on a sorted slice without repeats: `Ok` with the position of `x`,
or `Err` with the number of elements below it. -/
def binarySearch (xs : List ℤ) (x : ℤ) : Except ℕ ℕ :=
  let pos := (xs.takeWhile (· < x)).length
  if xs[pos]? = some x then .ok pos else .error pos

/-- `MergeReader::maybe_output_batch`: an empty batch is not output. -/
def maybeOutputBatch (batch : Batch K V) (outputBatch : Option (Batch K V)) :
    Option (Batch K V) :=
  if batch.isEmpty then outputBatch else some batch

namespace MergeReader

-- `h` is read by the termination proof only
set_option linter.unusedVariables false in
/-- `MergeReader::refill_hot`: moves the warmest cold node to the hot heap until it is behind
the root of the hot heap. -/
def refillHot (r : MergeReader K V) : MergeReader K V :=
  match h : popMin Node.cmp r.cold with
  | none => r
  | some (warmest, cold) =>
    let behind := match peek Node.cmp r.hot with
      | some mergeWindow => warmest.isBehind mergeWindow
      | none => false
    if behind then r else refillHot { r with hot := r.hot ++ [warmest], cold }
termination_by r.cold.length
decreasing_by
  have := length_popMin h
  omega

/-- `MergeReader::reheap`: a node popped from the hot heap goes back to the cold heap when it
is behind the hot root, or when the hot heap is empty, and to the hot heap otherwise. -/
def reheap (r : MergeReader K V) (node : Option (Node K V)) : MergeReader K V :=
  match node with
  | none => r.refillHot
  | some node =>
    let nodeIsCold := match peek Node.cmp r.hot with
      | some hottest => node.isBehind hottest
      | none => true
    if nodeIsCold then { r with cold := r.cold ++ [node] }.refillHot
    else { r with hot := r.hot ++ [node] }.refillHot

/-- `MergeReader::fetch_batch_from_hottest`, called with one hot node: outputs its current
batch. -/
def fetchBatchFromHottest (r : MergeReader K V) : MergeReader K V :=
  match popMin Node.cmp r.hot with
  | none => r
  | some (hottest, hot) =>
    let (batch, node) := hottest.fetchBatch
    { r with hot, outputBatch := maybeOutputBatch batch r.outputBatch }.reheap node

/-- How many rows of the hot root `fetch_rows_from_hottest` outputs: those before the first
timestamp of the next node, or the first row alone when it has that timestamp. -/
def outputEnd (top : Batch K V) (nextMinTs : ℤ) : ℕ :=
  match binarySearch (top.entries.map Entry.ts) nextMinTs with
  | .error pos => pos
  | .ok pos => if pos = 0 then 1 else pos

/-- `MergeReader::fetch_rows_from_hottest`, called with at least two hot nodes. -/
def fetchRowsFromHottest (r : MergeReader K V) : MergeReader K V :=
  match popMin Node.cmp r.hot with
  | none => r
  | some (topNode, hot) =>
    match peek Node.cmp hot with
    | none => r
    | some nextNode =>
      let outputEnd := outputEnd topNode.current nextNode.firstTs
      let outputBatch := maybeOutputBatch (topNode.current.slice 0 outputEnd) r.outputBatch
      { r with hot, outputBatch }.reheap (topNode.skipRows outputEnd)

/-- The loop of `next_batch`: fetch while the hot heap has nodes and nothing is output, at most
`fuel` rounds (`None` when the fuel runs out). -/
def fetchToOutput : ℕ → MergeReader K V → Option (MergeReader K V)
  | 0, _ => none
  | fuel + 1, r =>
    if r.hot.isEmpty || r.outputBatch.isSome then some r
    else fetchToOutput fuel
      (if r.hot.length = 1 then r.fetchBatchFromHottest else r.fetchRowsFromHottest)

/-- `MergeReader::next_batch`: the batch fetched, if any, taken out of the reader. -/
def nextBatch (fuel : ℕ) (r : MergeReader K V) : Option (Option (Batch K V) × MergeReader K V) :=
  (fetchToOutput fuel r).map fun r => (r.outputBatch, { r with outputBatch := none })

/-- `MergeReader::new`: every source with a batch is a cold node, then `refill_hot`. -/
def new (sources : List (Source K V)) : MergeReader K V :=
  refillHot ⟨[], sources.filterMap Node.new, none⟩

/-- A consumer calling `next_batch` until it returns `None`, at most `fuel` times. -/
def readAll : ℕ → MergeReader K V → Option (List (Batch K V))
  | 0, _ => none
  | fuel + 1, r =>
    match nextBatch (fuel + 1) r with
    | none => none
    | some (none, _) => some []
    | some (some batch, r) => (batch :: ·) <$> readAll fuel r

end MergeReader

end Greptime
