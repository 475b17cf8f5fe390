import Greptime.Read.Dedup

/-!
# Merging the last non-null fields (`LastNonNull`, `LastNonNullIter`)

Regions in the `last_non_null` merge mode do not let a newer row hide an older one whole:
every field of the newest row of a `(key, timestamp)` that is null takes the value of the
newest older row of that `(key, timestamp)` where the field is not null, looking no further
back than the first delete.  `lastNonNullDedup` below states this on a sorted stream of rows.

`LastNonNull` implements it as a `DedupStrategy`.  It holds back the last batch it was given
(`buffer`), since the next batch may continue the `(key, timestamp)` of its last row, and a
`LastFieldsBuilder` that merges the first rows of the following batches into the fields of
that last row: lazily initialised from the buffer (`maybe_init`), fed one row at a time
(`push_first_row`), and written back into the buffer when a batch of another
`(key, timestamp)` arrives (`merge_last_non_null`).

`LastNonNullIter` runs the same strategy over a memtable iterator whose batches may repeat a
timestamp: `next_batch_for_merge` first cuts each batch into segments without two equal
neighbouring timestamps.  It reads the timestamps with `timestamps_native().unwrap()`, which
fails on an empty batch: an inner iterator starting with an empty batch makes the first call
fail, where that batch adds no row to merge.
-/

namespace Greptime

variable {K V : Type}

/-! ## What last-non-null merging is for -/

/-- The fields of a newest row merged with the older rows of its `(key, timestamp)`, newest
first: a null field takes the first non-null value, and the scan stops at the first
delete. -/
def mergeFields : List (Option V) → List (Row K V) → List (Option V)
  | acc, [] => acc
  | acc, r :: rs =>
    if r.op = .delete then acc else mergeFields (List.zipWith Option.or acc r.fields) rs

/-- The row output for one `(key, timestamp)` group, given its newest row and the older
ones: a delete is output unchanged. -/
def lastNonNullRow (r : Row K V) (older : List (Row K V)) : Row K V :=
  if r.op = .delete then r else { r with fields := mergeFields r.fields older }

/-- `LNN` of a sorted stream: one row per `(key, timestamp)` group, its newest row with the
merged fields, without the deletes when `filterDeleted` is set. -/
def lastNonNullDedup [LinearOrder K] (filterDeleted : Bool) (rows : List (Row K V)) :
    List (Row K V) :=
  ((rows.splitBy (fun a b => a.timeKey == b.timeKey)).filterMap
      (fun g => g.head?.map (fun r => lastNonNullRow r g.tail))).filter
    (Row.visible filterDeleted)

/-! ## `LastFieldsBuilder` -/

/-- `LastFieldsBuilder`.  The source also keeps one mutable vector per field to build the
merged column; the model builds the merged row from `lastFields` directly. -/
structure LastFieldsBuilder (V : Type) where
  filterDeleted : Bool
  lastFields : List (Option V)
  containsNull : Bool
  containsDeletion : Bool
  initialized : Bool
  deriving DecidableEq, Repr

/-- The batch with the fields of its last row replaced.  The source builds it with
`with_fields` for a one-row batch and by slicing off and concatenating the last row
otherwise; both give this batch. -/
def Batch.withLastFields (b : Batch K V) (fields : List (Option V)) : Batch K V :=
  { b with entries := b.entries.dropLast ++ (b.entries.getLast?.map ({ · with fields })).toList }

namespace LastFieldsBuilder

/-- `LastFieldsBuilder::new`. -/
def new (filterDeleted : Bool) : LastFieldsBuilder V := ⟨filterDeleted, [], false, false, false⟩

/-- `LastFieldsBuilder::skip_merge`. -/
def skipMerge (b : LastFieldsBuilder V) : Bool := b.containsDeletion || !b.containsNull

/-- `LastFieldsBuilder::maybe_init`: reads the last row of the buffered batch.  The batch is
never empty here; for a batch without field columns nothing is merged. -/
def maybeInit (b : LastFieldsBuilder V) (batch : Batch K V) : LastFieldsBuilder V :=
  if b.initialized then b
  else
    let b := { b with initialized := true }
    match batch.entries.getLast? with
    | none => b
    | some last =>
      if last.fields.isEmpty then b
      else
        let b := { b with containsDeletion := decide (last.op = OpType.delete) }
        let b := if !b.containsDeletion then
            { b with containsNull := last.fields.any Option.isNone }
          else b
        if b.skipMerge then b else { b with lastFields := last.fields }

/-- `LastFieldsBuilder::push_first_row`: merges the first row of a batch of the same
`(key, timestamp)`, unless nothing is left to merge; a delete stops the merge. -/
def pushFirstRow (b : LastFieldsBuilder V) (batch : Batch K V) : LastFieldsBuilder V :=
  if b.skipMerge then b
  else
    match batch.entries.head? with
    | none => b
    | some first =>
      let b := { b with containsDeletion := decide (first.op = OpType.delete) }
      if b.containsDeletion then b
      else
        let lastFields := List.zipWith
          (fun (value field : Option V) => if value.isNone && field.isSome then field else value)
          b.lastFields first.fields
        { b with lastFields, containsNull := lastFields.any Option.isNone }

/-- `LastFieldsBuilder::clear`. -/
def clear (b : LastFieldsBuilder V) : LastFieldsBuilder V :=
  { b with lastFields := [], containsNull := false, containsDeletion := false,
           initialized := false }

/-- `LastFieldsBuilder::merge_last_non_null`: writes the merged fields into the last row of
the buffer, resets the builder and filters deleted rows. -/
def mergeLastNonNull (b : LastFieldsBuilder V) (buffer : Batch K V) :
    LastFieldsBuilder V × Option (Batch K V) :=
  let output := if b.lastFields.isEmpty then buffer else buffer.withLastFields b.lastFields
  let b := b.clear
  let output := if b.filterDeleted then output.filterDeleted else output
  (b, if output.isEmpty then none else some output)

end LastFieldsBuilder

/-! ## `LastNonNull` -/

/-- `LastNonNull`: the buffered batch and the builder of its last row's fields. -/
structure LastNonNull (K V : Type) where
  buffer : Option (Batch K V)
  lastFields : LastFieldsBuilder V
  deriving DecidableEq, Repr

namespace LastNonNull

/-- `LastNonNull::new`. -/
def new (filterDeleted : Bool) : LastNonNull K V := ⟨none, .new filterDeleted⟩

/-- `LastNonNull::push_batch`. -/
def pushBatch [DecidableEq K] (st : LastNonNull K V) (batch : Batch K V) :
    LastNonNull K V × Option (Batch K V) :=
  if batch.isEmpty then (st, none)
  else
    match st.buffer with
    | none => ({ st with buffer := some batch }, none)
    | some buffer =>
      let lastFields := st.lastFields.maybeInit buffer
      -- another key or another timestamp: the buffered batch is complete
      if buffer.primaryKey ≠ batch.primaryKey ∨ buffer.lastTimestamp ≠ batch.firstTimestamp then
        let (lastFields, merged) := lastFields.mergeLastNonNull buffer
        (⟨some batch, lastFields⟩, merged)
      else if batch.numRows = 1 then
        (⟨some buffer, lastFields.pushFirstRow batch⟩, none)
      else
        let lastFields := lastFields.pushFirstRow (batch.slice 0 1)
        let (lastFields, merged) := lastFields.mergeLastNonNull buffer
        (⟨some (batch.slice 1 (batch.numRows - 1)), lastFields⟩, merged)

/-- `LastNonNull::finish`. -/
def finish (st : LastNonNull K V) : LastNonNull K V × Option (Batch K V) :=
  match st.buffer with
  | none => (st, none)
  | some buffer =>
    let (lastFields, merged) := (st.lastFields.maybeInit buffer).mergeLastNonNull buffer
    (⟨none, lastFields⟩, merged)

/-- `LastNonNull` as a `DedupStrategy`. -/
def strategy [DecidableEq K] : DedupStrategy (LastNonNull K V) K V where
  push := pushBatch
  finish := finish

lemma strategy_flushOnce [DecidableEq K] : (strategy (K := K) (V := V)).FlushOnce := by
  intro st
  rcases hbuf : st.buffer with _ | buffer
  · simp [strategy, finish, hbuf]
  · simp [strategy, finish, hbuf]

end LastNonNull

/-! ## `LastNonNullIter` -/

/-- `LastNonNullIter`: the inner iterator (`None` once exhausted), the strategy, and the
batch being cut into segments with the index of its next row. -/
structure LastNonNullIter (K V : Type) where
  iter : Option (List (Batch K V))
  strategy : LastNonNull K V
  currentBatch : Option (Batch K V)
  currentIndex : ℕ
  deriving DecidableEq, Repr

/-- The message `Option::unwrap` panics with on `None`. -/
def unwrapNonePanic : String := "called Option::unwrap() on a None value"

namespace LastNonNullIter

/-- `LastNonNullIter::new`: memtables never filter deleted rows. -/
def new (iter : List (Batch K V)) : LastNonNullIter K V := ⟨some iter, .new false, none, 0⟩

/-- The loop of `next_batch_for_merge`: how far past the first timestamp of `ts` the segment
extends, stopping before two equal neighbouring timestamps. -/
def segmentEnd : List ℤ → ℕ
  | a :: b :: rest => if a ≠ b then segmentEnd (b :: rest) + 1 else 0
  | _ => 0

/-- `LastNonNullIter::next_batch_for_merge`: the next segment of the current batch, fetching
a new batch from the inner iterator when there is none. -/
def nextBatchForMerge (it : LastNonNullIter K V) :
    Except String (LastNonNullIter K V × Option (Batch K V)) :=
  let fetched : Option (LastNonNullIter K V × Batch K V) :=
    match it.currentBatch with
    | some batch => some (it, batch)
    | none =>
      match it.iter with
      | some (batch :: rest) =>
        some ({ it with iter := some rest, currentBatch := some batch, currentIndex := 0 }, batch)
      | _ => none
  match fetched with
  | none => .ok ({ it with iter := none }, none)
  | some (it, batch) =>
    match batch.timestampsNative with
    | none => .error unwrapNonePanic
    | some timestamps =>
      let n := batch.numRows
      let pos := it.currentIndex + segmentEnd (timestamps.drop it.currentIndex)
      let segment := batch.slice it.currentIndex (pos - it.currentIndex + 1)
      if pos + 1 < n ∧ timestamps[pos]? = timestamps[pos + 1]? then
        .ok ({ it with currentIndex := pos + 1 }, some segment)
      else
        .ok ({ it with currentBatch := none, currentIndex := 0 }, some segment)

/-- `LastNonNullIter::next_batch`: pushes segments to the strategy until one yields a batch,
then finishes; `fuel` bounds the number of segments. -/
def nextBatch [DecidableEq K] :
    ℕ → LastNonNullIter K V → Except String (LastNonNullIter K V × Option (Batch K V))
  | 0, it => .ok (it, none)
  | fuel + 1, it => do
    let (it, segment) ← it.nextBatchForMerge
    match segment with
    | some segment =>
      let (strategy, out) := it.strategy.pushBatch segment
      match out with
      | some out => pure ({ it with strategy }, some out)
      | none => nextBatch fuel { it with strategy }
    | none =>
      let (strategy, out) := it.strategy.finish
      pure ({ it with strategy }, out)

end LastNonNullIter

/-- On an inner iterator whose first batch has no rows, the first call fails, whatever
follows, although that batch adds no row to merge. -/
theorem lastNonNullIter_nextBatch_emptyBatch [DecidableEq K] (k : K) (rest : List (Batch K V))
    (fuel : ℕ) :
    (LastNonNullIter.new (⟨k, []⟩ :: rest)).nextBatch (fuel + 1) = .error unwrapNonePanic ∧
      (⟨k, []⟩ :: rest).flatMap Batch.rows = rest.flatMap Batch.rows :=
  ⟨rfl, rfl⟩

end Greptime
