import Greptime.Foundations.Pull
import Greptime.Read.Batch

/-!
# Removing duplicate rows from a sorted stream (`mito2::read::dedup`)

`DedupReader` wraps a sorted source of batches (the output of the merge reader) and a
`DedupStrategy`: every source batch is pushed to the strategy, and `next_batch` returns the
first batch the strategy answers with, or the strategy's `finish` once the source is
exhausted.  That loop is `Transducer.pull`; reading the reader to the end is
`Transducer.drain`, which for a strategy whose `finish` empties its buffer sees exactly
`Transducer.run` (`Transducer.drain_eq_run`).

## `LastRow`

The merge reader never puts two rows of one timestamp into one batch, and a
`(key, timestamp)` it repeats sits at the end of one batch and the start of the next.  So
`LastRow` remembers only the key and the last timestamp of the previous non-empty batch
(`BatchLastRow`), and drops the first row of a batch when it repeats it.  The remembered
row is recorded before deleted rows are filtered out.

The proof follows the stream one batch at a time.  The remembered `BatchLastRow` is the
key `dropRepeats` remembers after the rows read so far (`LastRow.pushBatch_rows` and
`LastRow.pushBatch_prevBatch`, the step), so the whole output is
`dropRepeats Row.timeKey none` of the input rows, deletes filtered (`LastRow.run_rows`, the
run), which on a sorted stream is `lastRowDedup` and has the properties of
`IsLastRowDedup` (`dedupReader_lastRow`).
-/

namespace Greptime

variable {K V : Type}

/-- `DedupStrategy`: `push_batch` may answer a batch with a deduplicated batch; `finish`
returns what the strategy still buffers once the source is exhausted. -/
abbrev DedupStrategy (S K V : Type) := Transducer S (Batch K V) (Batch K V)

/-- The batches read from `DedupReader::new(source, strategy)` by calling `next_batch`
until it returns `None`, at most `fuel` times. -/
def DedupReader.readAll {S : Type} (strategy : DedupStrategy S K V) (state : S) (fuel : ℕ)
    (source : List (Batch K V)) : List (Batch K V) :=
  strategy.drain fuel state source

/-! ## `LastRow` -/

/-- `BatchLastRow`: the primary key and the last timestamp of the previous batch. -/
structure BatchLastRow (K : Type) where
  primaryKey : K
  timestamp : ℤ
  deriving DecidableEq, Repr

/-- `LastRow`: the previous batch's last row, and whether to filter deleted rows. -/
structure LastRow (K : Type) where
  prevBatch : Option (BatchLastRow K)
  filterDeleted : Bool
  deriving DecidableEq, Repr

namespace LastRow

/-- `LastRow::new`. -/
def new (filterDeleted : Bool) : LastRow K := ⟨none, filterDeleted⟩

/-- The `prev_timestamp` of `LastRow::push_batch`: the previous batch's last timestamp when
its key is the key of the batch pushed. -/
def prevTimestamp [DecidableEq K] (prevBatch : Option (BatchLastRow K)) (primaryKey : K) :
    Option ℤ :=
  match prevBatch with
  | some prev => if prev.primaryKey ≠ primaryKey then none else some prev.timestamp
  | none => none

/-- `LastRow::push_batch`.  `batch.last_timestamp().unwrap()` cannot fail: the batch is not
empty at that point. -/
def pushBatch [DecidableEq K] (st : LastRow K) (batch : Batch K V) :
    LastRow K × Option (Batch K V) :=
  if batch.isEmpty then (st, none)
  else
    let prevTimestamp := prevTimestamp st.prevBatch batch.primaryKey
    -- a single row repeating the previous batch's last row: skipped, state unchanged
    if batch.firstTimestamp = prevTimestamp ∧ batch.numRows = 1 then (st, none)
    else
      let batch :=
        if batch.firstTimestamp = prevTimestamp then batch.slice 1 (batch.numRows - 1)
        else batch
      let st := { st with prevBatch := batch.lastTimestamp.map (BatchLastRow.mk batch.primaryKey) }
      let batch := if st.filterDeleted then batch.filterDeleted else batch
      (st, if batch.isEmpty then none else some batch)

/-- `LastRow` as a `DedupStrategy`; its `finish` returns nothing. -/
def strategy [DecidableEq K] : DedupStrategy (LastRow K) K V where
  push := pushBatch
  finish st := (st, none)

lemma strategy_flushOnce [DecidableEq K] : (strategy (K := K) (V := V)).FlushOnce :=
  fun _ => rfl

@[simp] lemma filterDeleted_pushBatch [DecidableEq K] (st : LastRow K) (batch : Batch K V) :
    (st.pushBatch batch).1.filterDeleted = st.filterDeleted := by
  simp only [pushBatch]
  split_ifs <;> rfl

end LastRow

/-! ### The remembered row is the key `dropRepeats` remembers -/

section Order

variable [LinearOrder K]

/-- The `(key, timestamp)` a remembered last row stands for. -/
def BatchLastRow.timeKey (p : BatchLastRow K) : K ×ₗ ℤ := toLex (p.primaryKey, p.timestamp)

namespace LastRow

/-- The key `dropRepeats` remembers for a `LastRow` state. -/
abbrev lastTimeKey (st : LastRow K) : Option (K ×ₗ ℤ) := st.prevBatch.map BatchLastRow.timeKey

/-- The first row of a batch is skipped exactly when the remembered row has its key. -/
lemma prevTimestamp_eq_some_iff {prev : Option (BatchLastRow K)} {k : K} {ts : ℤ} :
    prevTimestamp prev k = some ts ↔
      prev.map BatchLastRow.timeKey = some (toLex (k, ts)) := by
  rcases prev with _ | ⟨pk, t⟩
  · simp [prevTimestamp]
  · by_cases hk : pk = k
    · simp [prevTimestamp, BatchLastRow.timeKey, hk]
    · simp [prevTimestamp, BatchLastRow.timeKey, hk]

omit [LinearOrder K] in
/-- The key remembered after a non-empty batch is the key of its last row. -/
lemma lastTimestamp_timeKey (b : Batch K V) (hb : b.isEmpty = false) (p : Option (K ×ₗ ℤ)) :
    (b.lastTimestamp.map (BatchLastRow.mk b.primaryKey)).map BatchLastRow.timeKey =
      lastKey Row.timeKey p b.rows := by
  obtain ⟨k, es⟩ := b
  unfold lastKey Batch.rows Batch.lastTimestamp
  rw [List.getLast?_map]
  rcases hlast : es.getLast? with _ | e
  · simp_all [Batch.isEmpty]
  · simp [BatchLastRow.timeKey, Row.timeKey, Entry.toRow]

/-- One push: the rows output are the rows `dropRepeats` keeps from the batch after the
remembered key, deletes filtered, and the key remembered next is the last key of the batch. -/
lemma pushBatch_step (st : LastRow K) (batch : Batch K V)
    (hts : (batch.entries.map Entry.ts).Nodup) :
    (st.pushBatch batch).2.toList.flatMap Batch.rows =
        (dropRepeats Row.timeKey st.lastTimeKey batch.rows).filter (Row.visible st.filterDeleted) ∧
      (st.pushBatch batch).1.lastTimeKey = lastKey Row.timeKey st.lastTimeKey batch.rows := by
  obtain ⟨k, _ | ⟨e, es⟩⟩ := batch
  · simp [pushBatch, Batch.isEmpty]
  have hchain := (Batch.rows_pairwise_ne hts).isChain
  -- after its first row, a batch is kept whole
  have htail : dropRepeats Row.timeKey (some (e.toRow k).timeKey) (Batch.mk k es).rows =
      (Batch.mk k es).rows := dropRepeats_of_isChain _ _ hchain
  by_cases hdup : prevTimestamp st.prevBatch k = some e.ts
  · have hkey : st.lastTimeKey = some (e.toRow k).timeKey := prevTimestamp_eq_some_iff.mp hdup
    rw [hkey, Batch.rows_cons, dropRepeats_cons_same, htail, lastKey_cons]
    cases es with
    | nil => simp [pushBatch, Batch.isEmpty, Batch.firstTimestamp, Batch.numRows, hdup, hkey]
    | cons e' es' =>
      -- the first row is sliced off, the rest is output
      have hpush : st.pushBatch ⟨k, e :: e' :: es'⟩ =
          (⟨(Batch.mk k (e' :: es')).lastTimestamp.map (BatchLastRow.mk k), st.filterDeleted⟩,
            if (if st.filterDeleted then (Batch.mk k (e' :: es')).filterDeleted
                else Batch.mk k (e' :: es')).isEmpty then none
            else some (if st.filterDeleted then (Batch.mk k (e' :: es')).filterDeleted
                else Batch.mk k (e' :: es'))) := by
        simp [pushBatch, Batch.isEmpty, Batch.firstTimestamp, Batch.numRows, Batch.slice, hdup]
      rw [hpush, Batch.rows_ite_isEmpty, Batch.rows_filterDeleted_if]
      exact ⟨rfl, lastTimestamp_timeKey ⟨k, e' :: es'⟩ rfl _⟩
  · have hkey : st.lastTimeKey ≠ some (e.toRow k).timeKey :=
      fun h => hdup (prevTimestamp_eq_some_iff.mpr h)
    have hpush : st.pushBatch ⟨k, e :: es⟩ =
        (⟨(Batch.mk k (e :: es)).lastTimestamp.map (BatchLastRow.mk k), st.filterDeleted⟩,
          if (if st.filterDeleted then (Batch.mk k (e :: es)).filterDeleted
              else Batch.mk k (e :: es)).isEmpty then none
          else some (if st.filterDeleted then (Batch.mk k (e :: es)).filterDeleted
              else Batch.mk k (e :: es))) := by
      have hne : some e.ts ≠ prevTimestamp st.prevBatch k := fun h => hdup h.symm
      simp [pushBatch, Batch.isEmpty, Batch.firstTimestamp, hne]
    rw [hpush, Batch.rows_ite_isEmpty, Batch.rows_filterDeleted_if]
    refine ⟨?_, lastTimestamp_timeKey ⟨k, e :: es⟩ rfl _⟩
    rw [Batch.rows_cons, dropRepeats_cons_of_ne _ hkey, htail]

/-- The run: the rows output for a whole stream are the rows `dropRepeats` keeps from all its
rows after the remembered key, deletes filtered.  By induction over the stream, one
`pushBatch_step` per batch, with `dropRepeats_append` gluing the batches. -/
lemma run_rows (st : LastRow K) (input : List (Batch K V))
    (hts : ∀ b ∈ input, (b.entries.map Entry.ts).Nodup) :
    (strategy.run st input).flatMap Batch.rows =
      (dropRepeats Row.timeKey st.lastTimeKey (input.flatMap Batch.rows)).filter
        (Row.visible st.filterDeleted) := by
  induction input generalizing st with
  | nil => rfl
  | cons b bs ih =>
    obtain ⟨hrows, hkey⟩ := pushBatch_step st b (hts b List.mem_cons_self)
    have hrest := ih (st.pushBatch b).1 (fun b' hb' => hts b' (List.mem_cons_of_mem b hb'))
    rw [filterDeleted_pushBatch, hkey] at hrest
    have hpush : strategy.push st b = st.pushBatch b := rfl
    rw [Transducer.run_cons, hpush, List.flatMap_append, hrows, hrest, List.flatMap_cons,
      dropRepeats_append, List.filter_append]

end LastRow

/-- `DedupReader` with `LastRow::new(filter_deleted)`, read to the end over a stream that
satisfies the merge reader's guarantee, outputs for every `(key, timestamp)` exactly its
newest row, in input order, deletes removed when filtering. -/
theorem dedupReader_lastRow (filterDeleted : Bool) (input : List (Batch K V))
    (h : MergeSorted input) (fuel : ℕ) (hfuel : input.length + 2 ≤ fuel) :
    IsLastRowDedup filterDeleted (input.flatMap Batch.rows)
      ((DedupReader.readAll LastRow.strategy (LastRow.new filterDeleted) fuel input).flatMap
        Batch.rows) := by
  have hrun := LastRow.run_rows (LastRow.new filterDeleted) input h.nodupTs
  rw [DedupReader.readAll, Transducer.drain_eq_run _ LastRow.strategy_flushOnce _ _ _ hfuel, hrun]
  exact isLastRowDedup_lastRowDedup filterDeleted h.sorted

/-- A stream where one timestamp spans two batches and its newest version is a delete. -/
def deleteAcrossBatches : List (Batch ℕ ℕ) :=
  [⟨0, [⟨1, 5, .put, [some 1]⟩, ⟨2, 5, .delete, [none]⟩]⟩,
    ⟨0, [⟨2, 3, .put, [some 2]⟩, ⟨3, 3, .put, [some 3]⟩]⟩]

theorem dedupReader_lastRow_deleteAcrossBatches :
    MergeSorted deleteAcrossBatches ∧ deleteAcrossBatches.length + 2 ≤ 4 ∧
      IsLastRowDedup true (deleteAcrossBatches.flatMap Batch.rows)
        ((DedupReader.readAll LastRow.strategy (LastRow.new true) 4 deleteAcrossBatches).flatMap
          Batch.rows) :=
  have hsorted : MergeSorted deleteAcrossBatches := by decide
  ⟨hsorted, by decide, dedupReader_lastRow true deleteAcrossBatches hsorted 4 (by decide)⟩

example : (DedupReader.readAll LastRow.strategy (LastRow.new true) 4 deleteAcrossBatches).flatMap
    Batch.rows = [⟨0, 1, 5, .put, [some 1]⟩, ⟨0, 3, 3, .put, [some 3]⟩] := by
  decide

end Order

end Greptime
