import Greptime.Time.Timestamp
import Greptime.Region.WriteCtx
import Greptime.Foundations.Except

/-!
# Time partitions of a memtable (`mito2::memtable::time_partition`)

The mutable memtable of a region is split by time: `TimePartitions` holds a list of
partitions, each a memtable with a range `[min, max)` of its time index.  A range starts at a
multiple of the partition duration, counted in whole seconds (`partition_start_timestamp`
rounds the duration down to `as_secs`), and is as long as the duration.

Rows come in two ways.  `write` takes the rows of one mutation: when one partition contains
all of them it writes them there, and otherwise `write_multi_parts` routes each row to the
first partition that contains it, or to a new partition starting at the row's bucket.  In bulk
mode, and for bulk parts, `write_bulk` first asks `find_partitions_by_time_range` for the
partitions that overlap the part's time span and for the starts of the partitions it lacks,
then writes to each partition the rows of its range.

`find_partitions_by_time_range` counts buckets with `part_duration.as_secs() as i64`, a cast
that wraps: a duration of `2^63` seconds or more gives a bucket that is not positive, and
the enumeration of the buckets between the part's first and last timestamp can come out
empty, so that `write_bulk` succeeds and writes nothing
(`timePartitions_writeBulk_hugeWindow_loses_rows`).

A write is not atomic.  The memtables are shared, so a write reaches them as it goes:
`write_multi_parts` and `write_bulk` write the rows of the partitions that exist before they
create the missing ones, and when creating one fails (`PartTimeRange::from_start_duration`
overflows for a partition that would end past `i64::MAX`), the error comes back after those
rows are in place.  The writes are modelled with the partitions they leave, whatever their
outcome (`writeState`, `writeBulkState`, `writeMultiPartsState`, over the library's
`Except.foldlUntilError`), and `write` and `writeBulk` are what their caller sees
(`timePartitions_write_keeps_rows_on_error`).

The memtables are reduced to the rows written to them, and a row to its timestamp, in the
unit of the region's time index, and an opaque payload.  Failures of the memtables
themselves and of the conversion of rows to a bulk part are left out.
-/

namespace Greptime

variable {R : Type}

/-- `INITIAL_TIME_WINDOW`: one day. -/
def initialTimeWindow : Duration := Duration.fromSecs 86400

/-- A row of a memtable: its time index value, in the unit of the region's time index, and the
rest of the row. -/
structure KeyValue (R : Type) where
  timestamp : I64
  row : R
  deriving DecidableEq

/-- `KeyValues`: the rows of one mutation, and the sequence of its first row. -/
structure KeyValues (R : Type) where
  sequence : ℕ
  rows : List (KeyValue R)
  deriving DecidableEq

/-- What the functions of this module fail with: the `InvalidRequest` errors, by the data
their messages print, and a panic (an `unwrap` on `None`, `div_euclid` by zero or with
overflow, the assertion of `align_by_bucket`). -/
inductive TimePartitionError
  /-- "Partition time range for {part_start:?} is out of bound, bucket size: {:?}" -/
  | partitionOutOfBound (partStart : Timestamp) (partDuration : Duration)
  /-- "Timestamp out of range: {}", for the start of an enumerated bucket. -/
  | bucketOutOfRange (startSec : I64)
  /-- "Timestamp out of range: {:?}", for a row of a bulk part. -/
  | timestampOutOfRange (ts : Timestamp)
  /-- "timestamp {ts:?} and bucket {part_duration:?} are out of range" -/
  | timestampAndBucketOutOfRange (ts : Timestamp) (partDuration : Duration)
  | panic
  deriving DecidableEq

/-- `PartTimeRange`: `min` is inclusive and `max` exclusive. -/
structure PartTimeRange where
  minTimestamp : Timestamp
  maxTimestamp : Timestamp
  deriving DecidableEq

namespace PartTimeRange

/-- `PartTimeRange::from_start_duration`: the range goes from `start`, rounded down to a
second, for the duration's whole seconds (`add_duration` in seconds truncates the rest). -/
def fromStartDuration (start : Timestamp) (duration : Duration) : Option PartTimeRange := do
  let startSec ← start.convertTo .second
  let endSec ← startSec.addDuration duration
  let minTimestamp ← startSec.convertTo start.unit
  let maxTimestamp ← endSec.convertTo start.unit
  pure ⟨minTimestamp, maxTimestamp⟩

/-- `PartTimeRange::contains_timestamp`: `min <= ts && ts < max`. -/
def containsTimestamp (r : PartTimeRange) (ts : Timestamp) : Bool :=
  r.minTimestamp.cmp ts != .gt && ts.cmp r.maxTimestamp == .lt

end PartTimeRange

/-- `TimePartition`: a memtable, by its id and the rows written to it, and its range. -/
structure TimePartition (R : Type) where
  memtableId : ℕ
  rows : List (KeyValue R)
  timeRange : PartTimeRange
  deriving DecidableEq

/-- `TimePartitions`: the partitions (`PartitionsInner`), the duration of a partition, the
unit of the region's time index and whether the memtables take bulk parts
(`bulk_schema.is_some()`). -/
structure TimePartitions (R : Type) where
  parts : List (TimePartition R)
  nextMemtableId : ℕ
  partDuration : Duration
  timeIndexUnit : TimeUnit
  bulkInsert : Bool
  deriving DecidableEq

/-- `filter_record_batch`: the rows with `min <= ts < max`, `None` when there are none. -/
def filterRecordBatch (part : BulkPart (KeyValue R)) (min max : I64) :
    Option (BulkPart (KeyValue R)) :=
  match part.rows.filter fun kv => decide (min ≤ kv.timestamp ∧ kv.timestamp < max) with
  | [] => none
  | rows => some ⟨part.sequence, rows⟩

/-- `BulkPart::min_ts`, as the converter computes it: from `i64::MAX` down. -/
def BulkPart.minTs (part : BulkPart (KeyValue R)) : I64 :=
  part.rows.foldl (fun m kv => min m kv.timestamp) I64.MAX

/-- `BulkPart::max_ts`, as the converter computes it: from `i64::MIN` up. -/
def BulkPart.maxTs (part : BulkPart (KeyValue R)) : I64 :=
  part.rows.foldl (fun m kv => max m kv.timestamp) I64.MIN

/-- `BulkPartConverter`: the rows of a mutation as one bulk part, with the largest sequence of
its rows (`SequenceNumber::MIN` for none).  The converter sorts the rows by primary key,
timestamp and sequence; the partitions never read the primary key, so the sort is a
parameter. -/
def KeyValues.toBulkPart (sortRows : List (KeyValue R) → List (KeyValue R)) (kvs : KeyValues R) :
    BulkPart (KeyValue R) :=
  ⟨if kvs.rows = [] then 0 else kvs.sequence + kvs.rows.length - 1, sortRows kvs.rows⟩

/-- `partition_start_timestamp`: the timestamp rounded down to a multiple of the bucket's
whole seconds, in its own unit; `None` when the bucket does not fit an `i64` or a step
overflows.  The assertion of `align_by_bucket` panics on a zero bucket. -/
def partitionStartTimestamp (ts : Timestamp) (bucket : Duration) :
    Except TimePartitionError (Option Timestamp) :=
  match ts.convertTo .second with
  | none => .error .panic
  | some tsSec =>
    match I64.tryOfInt bucket.asSecs with
    | none => .ok none
    | some bucketSec =>
      if bucketSec.val ≤ 0 then .error .panic
      else .ok ((alignByBucket tsSec.value bucketSec).bind fun startSec =>
        Timestamp.convertTo ⟨startSec, .second⟩ ts.unit)

/-- `i64::div_euclid`, which panics on a zero divisor and on overflow. -/
def divEuclid (a b : I64) : Except TimePartitionError I64 :=
  match I64.checkedDivEuclid a b with
  | none => .error .panic
  | some q => .ok q

/-- `convert_to(TimeUnit::Second).unwrap()`. -/
def toSecond (ts : Timestamp) : Except TimePartitionError I64 :=
  match ts.convertTo .second with
  | none => .error .panic
  | some tsSec => .ok tsSec.value

/-- The inclusive range `start..=end` of `i64`. -/
def bucketsBetween (start stop : I64) : List I64 :=
  (List.range (stop.val - start.val + 1).toNat).map fun i => I64.wrap (start.val + i)

/-- The scan of `find_partitions_by_time_range` over the proposed starts: the first error ends
it (`collect::<Result<Vec<_>>>`), and a start already in `present` is skipped. -/
def collectMissing : List I64 → List (Except TimePartitionError Timestamp) →
    Except TimePartitionError (List Timestamp)
  | _, [] => .ok []
  | _, .error e :: _ => .error e
  | present, .ok ts :: rest =>
    if ts.value ∈ present then collectMissing present rest
    else do
      let missing ← collectMissing (ts.value :: present) rest
      pure (ts :: missing)

namespace TimePartitions

/-- `TimePartitions::new`: no partitions, and one day when no duration is given. -/
def new (timeIndexUnit : TimeUnit) (bulkInsert : Bool) (nextMemtableId : ℕ)
    (partDuration : Option Duration) : TimePartitions R :=
  ⟨[], nextMemtableId, partDuration.getD initialTimeWindow, timeIndexUnit, bulkInsert⟩

/-- `kv.timestamp().as_timestamp()`: the row's time index value as a timestamp. -/
def timestampOf (tp : TimePartitions R) (kv : KeyValue R) : Timestamp :=
  ⟨kv.timestamp, tp.timeIndexUnit⟩

/-- Appends rows to the memtable `memtableId`.  The callers hold clones of the partitions,
which share the memtables, so a write through a clone lands in the partition of the list. -/
def writeMemtable (tp : TimePartitions R) (memtableId : ℕ) (rows : List (KeyValue R)) :
    TimePartitions R :=
  { tp with parts := tp.parts.map fun p =>
      if p.memtableId = memtableId then { p with rows := p.rows ++ rows } else p }

/-- `TimePartition::write_record_batch_partial`: the rows of the part in the partition's
range, if any. -/
def writeRecordBatchPartial (tp : TimePartitions R) (partition : TimePartition R)
    (part : BulkPart (KeyValue R)) : TimePartitions R :=
  match filterRecordBatch part partition.timeRange.minTimestamp.value
      partition.timeRange.maxTimestamp.value with
  | none => tp
  | some filtered => tp.writeMemtable partition.memtableId filtered.rows

/-- `TimePartitions::get_or_create_time_partition`: the first partition whose `min` equals
`part_start`, or a new one after the others, with the next memtable id. -/
def getOrCreateTimePartition (tp : TimePartitions R) (partStart : Timestamp) :
    Except TimePartitionError (TimePartitions R × TimePartition R) :=
  match tp.parts.find? fun part => part.timeRange.minTimestamp.cmp partStart == .eq with
  | some part => .ok (tp, part)
  | none =>
    match PartTimeRange.fromStartDuration partStart tp.partDuration with
    | none => .error (.partitionOutOfBound partStart tp.partDuration)
    | some range =>
      let part : TimePartition R := ⟨tp.nextMemtableId, [], range⟩
      .ok ({ tp with parts := tp.parts ++ [part], nextMemtableId := tp.nextMemtableId + 1 }, part)

/-- The start of the bucket of one row of a bulk part, on the path that goes row by row. -/
def rowBucketStart (tp : TimePartitions R) (ts : Timestamp) (partDurationSec : I64) :
    Except TimePartitionError Timestamp :=
  match ts.convertTo .second with
  | none => .error (.timestampOutOfRange ts)
  | some tsSec =>
    -- `align_by_bucket` asserts a positive bucket
    if partDurationSec.val ≤ 0 then .error .panic
    else
      match (alignByBucket tsSec.value partDurationSec).bind fun startSec =>
          Timestamp.convertTo ⟨startSec, .second⟩ tp.timeIndexUnit with
      | none => .error (.timestampOutOfRange ts)
      | some bucketStart => .ok bucketStart

/-- The start of an enumerated bucket: `start_sec * part_duration_sec` wraps in a release
build. -/
def enumeratedBucketStart (tp : TimePartitions R) (partDurationSec startSec : I64) :
    Except TimePartitionError Timestamp :=
  match (Timestamp.newSecond (I64.wrappingMul startSec partDurationSec)).convertTo
      tp.timeIndexUnit with
  | none => .error (.bucketOutOfRange startSec)
  | some ts => .ok ts

/-- `TimePartitions::find_partitions_by_time_range`: the partitions that overlap `[min, max]`,
and the starts of the missing partitions, from the buckets between `min` and `max` when there
are no more of them than rows, and from the rows' own buckets otherwise. -/
def findPartitionsByTimeRange (tp : TimePartitions R) (tsArray : List I64)
    (existingParts : List (TimePartition R)) (min max : Timestamp) :
    Except TimePartitionError (List (TimePartition R) × List Timestamp) := do
  let matching := existingParts.filter fun part =>
    !(max.cmp part.timeRange.minTimestamp == .lt || min.cmp part.timeRange.maxTimestamp != .lt)
  let present := matching.map fun part => part.timeRange.minTimestamp.value
  -- `as_secs() as i64` wraps
  let partDurationSec := I64.wrap tp.partDuration.asSecs
  let startBucket ← divEuclid (← toSecond min) partDurationSec
  let endBucket ← divEuclid (← toSecond max) partDurationSec
  let bucketNum := (I64.wrap (endBucket.val - startBucket.val + 1)).toUsize
  let candidates :=
    if bucketNum ≤ tsArray.length then
      (bucketsBetween startBucket endBucket).map (tp.enumeratedBucketStart partDurationSec)
    else
      tsArray.map fun ts => tp.rowBucketStart ⟨ts, tp.timeIndexUnit⟩ partDurationSec
  let missing ← collectMissing present candidates
  pure (matching, missing)

/-- What the caller of a write sees: the partitions when the write succeeds, its error when it
fails. -/
def resultOf (r : TimePartitions R × Except TimePartitionError Unit) :
    Except TimePartitionError (TimePartitions R) :=
  r.2.map fun _ => r.1

/-- `TimePartitions::write_bulk`, with the partitions it leaves: the memtables it wrote to
before an error keep those rows, and a partition it created stays. -/
def writeBulkState (tp : TimePartitions R) (part : BulkPart (KeyValue R)) :
    TimePartitions R × Except TimePartitionError Unit :=
  match tp.findPartitionsByTimeRange (part.rows.map (·.timestamp)) tp.parts
      ⟨part.minTs, tp.timeIndexUnit⟩ ⟨part.maxTs, tp.timeIndexUnit⟩ with
  | .error e => (tp, .error e)
  | .ok (matchingParts, missingParts) =>
    match matchingParts, missingParts with
    -- the fast path: all rows fall into one partition
    | [partition], [] => (tp.writeMemtable partition.memtableId part.rows, .ok ())
    | _, _ =>
      let tp := matchingParts.foldl (fun tp matching => tp.writeRecordBatchPartial matching part) tp
      Except.foldlUntilError (fun tp missing =>
        (tp.getOrCreateTimePartition missing).map fun (tp, newPart) =>
          tp.writeRecordBatchPartial newPart part) tp missingParts

/-- `TimePartitions::write_bulk`, as its caller sees it. -/
def writeBulk (tp : TimePartitions R) (part : BulkPart (KeyValue R)) :
    Except TimePartitionError (TimePartitions R) :=
  resultOf (tp.writeBulkState part)

/-- The rows of `write_multi_parts` grouped by the existing partition (`parts_to_write`) or by
the start of the missing one (`missing_parts`).  The source keeps the groups in hash maps; the
model keeps them in the order of their first row. -/
structure RowGroups (R : Type) where
  partsToWrite : List (TimePartition R × List (KeyValue R))
  missingParts : List (Timestamp × List (KeyValue R))

/-- Adds a row to the group with the given key, or opens a new group. -/
def pushGroup {K : Type} (eq : K → K → Bool) (key : K) (kv : KeyValue R) :
    List (K × List (KeyValue R)) → List (K × List (KeyValue R))
  | [] => [(key, [kv])]
  | (k, kvs) :: groups =>
    if eq k key then (k, kvs ++ [kv]) :: groups else (k, kvs) :: pushGroup eq key kv groups

/-- One row of the first loop of `write_multi_parts`: the first partition containing it, or
the start of its partition. -/
def groupRow (tp : TimePartitions R) (parts : List (TimePartition R)) (groups : RowGroups R)
    (kv : KeyValue R) : Except TimePartitionError (RowGroups R) := do
  let ts := tp.timestampOf kv
  match parts.find? (·.timeRange.containsTimestamp ts) with
  | some part =>
    let samePartition := fun (a b : TimePartition R) =>
      a.timeRange.minTimestamp.cmp b.timeRange.minTimestamp == .eq
    pure { groups with partsToWrite := pushGroup samePartition part kv groups.partsToWrite }
  | none =>
    match ← partitionStartTimestamp ts tp.partDuration with
    | none => throw (.timestampAndBucketOutOfRange ts tp.partDuration)
    | some partStart =>
      let sameStart := fun (a b : Timestamp) => a.cmp b == .eq
      pure { groups with missingParts := pushGroup sameStart partStart kv groups.missingParts }

/-- `TimePartitions::write_multi_parts`, with the partitions it leaves: the rows of the
existing partitions are written first, then each missing partition is created and written, and
an error on the way keeps what was written before it. -/
def writeMultiPartsState (tp : TimePartitions R) (kvs : List (KeyValue R))
    (parts : List (TimePartition R)) : TimePartitions R × Except TimePartitionError Unit :=
  match kvs.foldlM (tp.groupRow parts) ⟨[], []⟩ with
  | .error e => (tp, .error e)
  | .ok groups =>
    let tp := groups.partsToWrite.foldl
      (fun tp (partition, keyValues) => tp.writeMemtable partition.memtableId keyValues) tp
    Except.foldlUntilError (fun tp (partStart, keyValues) =>
      (tp.getOrCreateTimePartition partStart).map fun (tp, partition) =>
        tp.writeMemtable partition.memtableId keyValues) tp groups.missingParts

/-- `TimePartitions::write`, with the partitions it leaves: through a bulk part in bulk mode;
otherwise to the last partition that contains all rows, or row by row. -/
def writeState (sortRows : List (KeyValue R) → List (KeyValue R)) (tp : TimePartitions R)
    (kvs : KeyValues R) : TimePartitions R × Except TimePartitionError Unit :=
  if tp.bulkInsert then tp.writeBulkState (kvs.toBulkPart sortRows)
  else
    match tp.parts.reverse.find? fun part =>
        kvs.rows.all fun kv => part.timeRange.containsTimestamp (tp.timestampOf kv) with
    | some part => (tp.writeMemtable part.memtableId kvs.rows, .ok ())
    | none => tp.writeMultiPartsState kvs.rows tp.parts

/-- `TimePartitions::write`, as its caller sees it. -/
def write (sortRows : List (KeyValue R) → List (KeyValue R)) (tp : TimePartitions R)
    (kvs : KeyValues R) : Except TimePartitionError (TimePartitions R) :=
  resultOf (tp.writeState sortRows kvs)

/-- The partition with the largest `min` (`max_by_key`: the last of equal ones). -/
def latestPart (parts : List (TimePartition R)) : Option (TimePartition R) :=
  parts.foldl (fun latest part => match latest with
    | none => some part
    | some q =>
      if part.timeRange.minTimestamp.cmp q.timeRange.minTimestamp != .lt then some part
      else some q) none

/-- `TimePartitions::fork`: a new list with one empty partition, the one of the new duration
that holds the largest timestamp of the latest partition, when there is one. -/
def fork (tp : TimePartitions R) (partDuration : Option Duration) :
    Except TimePartitionError (TimePartitions R) := do
  let partDuration := partDuration.getD tp.partDuration
  match latestPart tp.parts with
  | none => pure (new tp.timeIndexUnit tp.bulkInsert tp.nextMemtableId (some partDuration))
  | some oldPart =>
    -- `old_stats.time_range()`: the largest timestamp of the rows written
    let timeRange ← match (oldPart.rows.map (·.timestamp)).max? with
      | none => pure none
      | some endTs => do
        let start ← partitionStartTimestamp ⟨endTs, tp.timeIndexUnit⟩ partDuration
        pure (start.bind fun start => PartTimeRange.fromStartDuration start partDuration)
    match timeRange with
    | some partTimeRange =>
      pure ⟨[⟨tp.nextMemtableId, [], partTimeRange⟩], tp.nextMemtableId + 1, partDuration,
        tp.timeIndexUnit, tp.bulkInsert⟩
    | none => pure ⟨[], tp.nextMemtableId, partDuration, tp.timeIndexUnit, tp.bulkInsert⟩

end TimePartitions

/-- A write to the partitions: the rows of a mutation, or a bulk part. -/
inductive PartitionWrite (R : Type)
  | write (kvs : KeyValues R)
  | writeBulk (part : BulkPart (KeyValue R))

namespace TimePartitions

/-- One write. -/
def step (sortRows : List (KeyValue R) → List (KeyValue R)) (tp : TimePartitions R) :
    PartitionWrite R → Except TimePartitionError (TimePartitions R)
  | .write kvs => tp.write sortRows kvs
  | .writeBulk part => tp.writeBulk part

/-- A sequence of writes, up to the first that fails. -/
def run (sortRows : List (KeyValue R) → List (KeyValue R)) (tp : TimePartitions R)
    (writes : List (PartitionWrite R)) : Except TimePartitionError (TimePartitions R) :=
  writes.foldlM (step sortRows) tp

end TimePartitions

/-- A partition duration of `2^63 + 5` seconds (about 292 billion years, which a region's
`compaction.twcs.time_window` accepts): `as_secs() as i64` is negative, a bulk part with rows
at `-1 s` and `0 s` spans the buckets `1..=0`, which are none, and `write_bulk` returns `Ok`
with no partition holding either row. -/
theorem timePartitions_writeBulk_hugeWindow_loses_rows :
    let tp : TimePartitions ℕ := .new .second true 0 (some (Duration.fromSecs (2 ^ 63 + 5)))
    tp.writeBulk ⟨0, [⟨I64.wrap (-1), 0⟩, ⟨I64.wrap 0, 1⟩]⟩ = .ok tp ∧
      tp.parts.flatMap TimePartition.rows = [] := by
  exact ⟨rfl, rfl⟩

/-- A region in seconds with the partition `[0 s, 86400 s)` of one day, written to nothing yet. -/
def dayPartitions : TimePartitions ℕ :=
  ⟨[⟨0, [], ⟨⟨I64.wrap 0, .second⟩, ⟨I64.wrap 86400, .second⟩⟩⟩], 1, initialTimeWindow, .second,
    false⟩

/-- Rows at `10 s`, in the partition of `dayPartitions`, and at `i64::MAX` seconds, whose day
would end past `i64::MAX`. -/
def rowsAcrossMax : KeyValues ℕ := ⟨1, [⟨I64.wrap 10, 0⟩, ⟨I64.MAX, 1⟩]⟩

/-- `write` puts the row at `10 s` into the existing partition, then fails to create the
partition of the other row: it returns an error, and the memtable keeps the first row. -/
theorem timePartitions_write_keeps_rows_on_error :
    dayPartitions.write id rowsAcrossMax = .error (.partitionOutOfBound
      ⟨I64.wrap 9223372036854720000, .second⟩ initialTimeWindow) ∧
      dayPartitions.parts.flatMap TimePartition.rows = [] ∧
      (dayPartitions.writeState id rowsAcrossMax).1.parts.flatMap TimePartition.rows =
        [⟨I64.wrap 10, 0⟩] := by
  refine ⟨?_, rfl, ?_⟩ <;> decide

end Greptime
