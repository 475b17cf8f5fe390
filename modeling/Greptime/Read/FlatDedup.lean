import Mathlib
import Greptime.Read.LastNonNull

/-!
# Deduplication in the flat format (`mito2::read::flat_dedup`)

The flat format hands readers arrow record batches that hold rows of many primary keys, and
may repeat a `(key, timestamp)` inside one batch.  A record batch is modelled as its list of
rows.  `FlatDedupIterator` is the same pull loop as `DedupReader`
(`Transducer.pull`), over `RecordBatchDedupStrategy`s.

Both strategies first deduplicate inside the pushed batch (`dedup_one_batch`): a fast path
when no two neighbouring timestamps are equal (`find_boundaries`), and otherwise the arrow
partition of the batch by `(primary key, timestamp)`, one range per group of equal
neighbours, of which `dedup_by_partitions` keeps one row.  Batch boundaries are stitched
through `BatchLastRow`, the last row of the previous batch.

`FlatLastNonNull` keeps the deduplicated batch in its buffer and, when the next batch
starts with the buffered last row's `(key, timestamp)`, re-deduplicates that row with the
next batch.  Whether the first range of such a batch continues a group that already met a
delete is carried in `contains_delete`; `dedup_by_partitions` recomputes it from the rows of
the last range alone, where the merged row of a group is the group's newest row, not its
delete.  A delete two batches back is then forgotten, and an older value reappears:
`flatLastNonNull_forgets_delete`.
-/

namespace Greptime

variable {K V : Type}

/-- An arrow `RecordBatch` of the flat format, as its rows. -/
abbrev RecordBatch (K V : Type) := List (Row K V)

/-- `RecordBatchDedupStrategy`. -/
abbrev RecordBatchDedupStrategy (S K V : Type) := Transducer S (RecordBatch K V) (RecordBatch K V)

/-- The record batches read from `FlatDedupIterator::new(iter, strategy)` by calling `next`
until it returns `None`, at most `fuel` times. -/
def FlatDedupIterator.readAll {S : Type} (strategy : RecordBatchDedupStrategy S K V)
    (state : S) (fuel : ℕ) (iter : List (RecordBatch K V)) : List (RecordBatch K V) :=
  strategy.drain fuel state iter

/-- The value of field `j` of a row. -/
def Row.field (r : Row K V) (j : ℕ) : Option V := (r.fields[j]?).join

/-! ## Deduplicating inside one record batch -/

/-- The number of set bits of `find_boundaries` on the timestamps: neighbours that differ. -/
def countBoundaries (timestamps : List ℤ) : ℕ :=
  (timestamps.zip timestamps.tail).countP (fun p => p.1 ≠ p.2)

/-- The ranges of `partition` on the primary key and time index columns: maximal runs of
neighbouring rows with equal `(key, timestamp)`. -/
def partitionRanges [DecidableEq K] (batch : RecordBatch K V) : List (RecordBatch K V) :=
  batch.splitBy (fun a b => a.key == b.key && a.ts == b.ts)

/-- `maybe_filter_deleted`. -/
def maybeFilterDeleted (batch : RecordBatch K V) (filterDeleted : Bool) :
    Option (RecordBatch K V) :=
  if !filterDeleted then some batch
  else
    let batch := batch.filter (fun r => r.op != .delete)
    if batch.length = 0 then none else some batch

/-- `BatchLastRow` of the flat format: a non-empty record batch and its last timestamp. -/
structure FlatBatchLastRow (K V : Type) where
  lastBatch : RecordBatch K V
  timestamp : ℤ
  nonempty : lastBatch ≠ []

namespace FlatBatchLastRow

/-- `BatchLastRow::try_new`. -/
def tryNew (batch : RecordBatch K V) : Option (FlatBatchLastRow K V) :=
  if h : batch = [] then none
  else some ⟨batch, (batch.getLast h).ts, h⟩

/-- `BatchLastRow::is_last_row_duplicated`: the first row of `batch` has the timestamp and
the primary key of the last row. -/
def isLastRowDuplicated [DecidableEq K] (prev : FlatBatchLastRow K V)
    (batch : RecordBatch K V) : Bool :=
  match batch with
  | [] => false
  | first :: _ =>
    first.ts == prev.timestamp && (prev.lastBatch.getLast prev.nonempty).key == first.key

end FlatBatchLastRow

/-! ## `FlatLastRow` -/

/-- `FlatLastRow`. -/
structure FlatLastRow (K V : Type) where
  prevBatch : Option (FlatBatchLastRow K V)
  filterDeleted : Bool

namespace FlatLastRow

/-- `FlatLastRow::new`. -/
def new (filterDeleted : Bool) : FlatLastRow K V := ⟨none, filterDeleted⟩

/-- `FlatLastRow::dedup_by_partitions`: the first row of every range. -/
def dedupByPartitions (batch : RecordBatch K V) (ranges : List (RecordBatch K V)) :
    RecordBatch K V :=
  if (ranges.map (fun r => r.length - 1)).sum = 0 then batch
  else ranges.filterMap List.head?

/-- `FlatLastRow::dedup_one_batch`. -/
def dedupOneBatch [DecidableEq K] (batch : RecordBatch K V) : RecordBatch K V :=
  if batch.length < 2 then batch
  else if countBoundaries (batch.map Row.ts) = batch.length - 1 then batch
  else dedupByPartitions batch (partitionRanges batch)

/-- `FlatLastRow::push_batch`. -/
def pushBatch [DecidableEq K] (st : FlatLastRow K V) (batch : RecordBatch K V) :
    FlatLastRow K V × Option (RecordBatch K V) :=
  if batch.length = 0 then (st, none)
  else
    let batch := dedupOneBatch batch
    let batch := match st.prevBatch with
      | some prev => if prev.isLastRowDuplicated batch then batch.drop 1 else batch
      | none => batch
    match FlatBatchLastRow.tryNew batch with
    | none => (st, none)
    | some batchLastRow => ({ st with prevBatch := some batchLastRow },
        maybeFilterDeleted batch st.filterDeleted)

/-- `FlatLastRow` as a `RecordBatchDedupStrategy`; its `finish` returns nothing. -/
def strategy [DecidableEq K] : RecordBatchDedupStrategy (FlatLastRow K V) K V where
  push := pushBatch
  finish st := (st, none)

end FlatLastRow

/-! ## `FlatLastNonNull` -/

/-- `FlatLastNonNull`.  `field_column_start` only tells the field columns apart from the
others, which the row model keeps apart already. -/
structure FlatLastNonNull (K V : Type) where
  filterDeleted : Bool
  buffer : Option (FlatBatchLastRow K V)
  containsDelete : Bool

namespace FlatLastNonNull

/-- `FlatLastNonNull::new`. -/
def new (filterDeleted : Bool) : FlatLastNonNull K V := ⟨filterDeleted, none, false⟩

/-- The loop of `compute_field_indices` over one range, from position `i`: the first row
whose field `j` is valid, stopping at a delete. -/
def firstValidIndex (j : ℕ) : List (Row K V) → ℕ → Option ℕ
  | [], _ => none
  | r :: rs, i =>
    if r.op = .delete then none
    else if (r.field j).isSome then some i
    else firstValidIndex j rs (i + 1)

/-- `compute_field_indices` for one range and field `j`: the start of the range when the
range continues a delete, else the first valid row before a delete, else the start. -/
def computeFieldIndex (range : List (Row K V)) (j : ℕ) (containsDelete : Bool) : ℕ :=
  if containsDelete then 0 else (firstValidIndex j range 0).getD 0

/-- The row `dedup_by_partitions` builds for one range: the non-field columns of its first
row, and every field taken from the row `compute_field_indices` picks. -/
def mergeRange (range : List (Row K V)) (containsDelete : Bool) : Option (Row K V) :=
  range.head?.map fun first =>
    { first with fields := first.fields.mapIdx fun j _ =>
        (range[computeFieldIndex range j containsDelete]?).bind (Row.field · j) }

/-- `FlatLastNonNull::last_range_has_delete`. -/
def lastRangeHasDelete (ranges : List (List (Row K V))) : Bool :=
  match ranges.getLast? with
  | some lastRange => lastRange.any (fun r => r.op == .delete)
  | none => false

/-- `FlatLastNonNull::dedup_by_partitions`: returns the deduplicated batch and whether the
last range contains a delete. -/
def dedupByPartitions (batch : RecordBatch K V) (ranges : List (RecordBatch K V))
    (firstRangeContainsDelete : Bool) : RecordBatch K V × Bool :=
  let containsDelete := lastRangeHasDelete ranges
  if (ranges.map (fun r => r.length - 1)).sum = 0 then (batch, containsDelete)
  else
    ((ranges.zipIdx.filterMap fun (range, idx) =>
      mergeRange range (idx == 0 && firstRangeContainsDelete)), containsDelete)

/-- `FlatLastNonNull::dedup_one_batch`. -/
def dedupOneBatch [DecidableEq K] (batch : RecordBatch K V) (prevBatchContainsDelete : Bool) :
    RecordBatch K V × Bool :=
  if batch.length < 2 then
    (batch, match batch with
      | first :: _ => first.op == .delete
      | [] => false)
  else if countBoundaries (batch.map Row.ts) = batch.length - 1 then
    (batch, (batch.getLast?.map (fun r => r.op == .delete)).getD false)
  else dedupByPartitions batch (partitionRanges batch) prevBatchContainsDelete

/-- `FlatLastNonNull::push_batch`. -/
def pushBatch [DecidableEq K] (st : FlatLastNonNull K V) (batch : RecordBatch K V) :
    FlatLastNonNull K V × Option (RecordBatch K V) :=
  if batch.length = 0 then (st, none)
  else
    match st.buffer with
    | none =>
      let (recordBatch, containsDelete) := dedupOneBatch batch false
      ({ st with buffer := FlatBatchLastRow.tryNew recordBatch, containsDelete }, none)
    | some buffer =>
      if !buffer.isLastRowDuplicated batch then
        let (recordBatch, containsDelete) := dedupOneBatch batch false
        ({ st with buffer := FlatBatchLastRow.tryNew recordBatch, containsDelete },
          maybeFilterDeleted buffer.lastBatch st.filterDeleted)
      else
        -- the last buffered row is deduplicated again with the next batch
        let output := if buffer.lastBatch.length > 1 then
            maybeFilterDeleted buffer.lastBatch.dropLast st.filterDeleted
          else none
        let lastRow := [buffer.lastBatch.getLast buffer.nonempty]
        let (recordBatch, containsDelete) := dedupOneBatch (lastRow ++ batch) st.containsDelete
        ({ st with buffer := FlatBatchLastRow.tryNew recordBatch, containsDelete }, output)

/-- `FlatLastNonNull::finish`. -/
def finish (st : FlatLastNonNull K V) : FlatLastNonNull K V × Option (RecordBatch K V) :=
  match st.buffer with
  | none => (st, none)
  | some buffer => ({ st with buffer := none }, maybeFilterDeleted buffer.lastBatch st.filterDeleted)

/-- `FlatLastNonNull` as a `RecordBatchDedupStrategy`. -/
def strategy [DecidableEq K] : RecordBatchDedupStrategy (FlatLastNonNull K V) K V where
  push := pushBatch
  finish := finish

end FlatLastNonNull

/-- One `(key, timestamp)` whose versions arrive one per batch, newest first: a put with a
null field, a delete, a put with a null field and a put with the value `5`. -/
def deleteTwoBack : List (RecordBatch ℕ ℕ) :=
  [[⟨0, 1, 4, .put, [none]⟩], [⟨0, 1, 3, .delete, [none]⟩], [⟨0, 1, 2, .put, [none]⟩],
    [⟨0, 1, 1, .put, [some 5]⟩]]

/-- The flat path fills the null field from the put behind the delete; last-non-null
merging, and the `Batch` path, keep it null. -/
theorem flatLastNonNull_forgets_delete :
    (FlatDedupIterator.readAll FlatLastNonNull.strategy (FlatLastNonNull.new false) 6
        deleteTwoBack).flatten = [⟨0, 1, 4, .put, [some 5]⟩] ∧
      lastNonNullDedup false deleteTwoBack.flatten = [⟨0, 1, 4, .put, [none]⟩] ∧
      (DedupReader.readAll LastNonNull.strategy (LastNonNull.new false) 6
        (deleteTwoBack.map (fun rows => ⟨0, rows.map Row.toEntry⟩))).flatMap Batch.rows =
        [⟨0, 1, 4, .put, [none]⟩] := by
  refine ⟨?_, ?_, ?_⟩ <;> decide

end Greptime
