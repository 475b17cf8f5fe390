import Greptime.Read.Batch

/-!
# The time-series memtable (`mito2::memtable::time_series`)

`TimeSeriesMemtable` groups the rows written to a region by primary key.  Each key owns a
`Series`: an `active` builder that rows are appended to, and a list of `frozen` parts; pushing
into a series whose active part is close to its capacity first freezes the active part.  The
series live in a `BTreeMap` ordered by the encoded key.

A read walks that map in key order (`Iter::next`) and, for every series,

1. compacts it (`Series::compact`: freeze, then concatenate the frozen parts),
2. turns the values into a batch sorted by timestamp and sequence descending, keeping only the
   first row of every timestamp when the memtable deduplicates (`Values::to_batch`, which calls
   `Batch::sort(dedup)`),
3. and only then applies the snapshot bound of the scan (`Batch::filter_by_sequence`).

The model follows those three steps.  The map is an association list kept in strictly
increasing key order (`SeriesMap`), which is what iterating a `BTreeMap` yields.  Keys are the
encoded primary keys themselves: the codec, the projection of field columns and the pruning
by primary-key predicates are not modelled (no result below reads them).

## Results

* Pushing keeps every row: a series holds the rows pushed into it in push order
  (`Series.values_push`), compaction changes none of them (`Series.compact_values`), and after
  any sequence of writes the series of a key holds exactly the written rows of that key, in
  write order (`SeriesMap.values_writeRows`).
* A read yields one batch per series in increasing key order, each one sorted by timestamp
  and sequence descending (`iterBatches_sorted`), and without a snapshot bound it is that
  batch exactly (`iterBatches_none`).
* With a snapshot bound the read is not a snapshot (`iterRows_ne_snapshotRows`).
  `filter_by_sequence` compares the bound with the sequence of the last row only, which after
  the sort is the sequence of the latest timestamp and not the largest one, so rows newer than
  the bound are returned; and the bound is applied after deduplication, so a version visible
  at the bound is lost when a newer version of its timestamp exists.
-/

namespace Greptime

variable {K V : Type}

/-- `BUILDER_CAPACITY`: the capacity of a series' active builder. -/
def builderCapacity : ℕ := 512

/-- `mito2::memtable::time_series::Series`: the rows of one primary key. -/
structure Series (V : Type) where
  active : List (Entry V)
  frozen : List (List (Entry V))
  capacity : ℕ
  deriving DecidableEq, Repr

namespace Series

/-- `Series::new`. -/
def new : Series V := ⟨[], [], builderCapacity⟩

/-- Every row of the series, oldest first. -/
def values (s : Series V) : List (Entry V) := s.frozen.flatten ++ s.active

/-- `Series::freeze`: moves a non-empty active part to the frozen parts. -/
def freeze (s : Series V) : Series V :=
  if s.active.length ≠ 0 then { s with active := [], frozen := s.frozen ++ [s.active] } else s

/-- `Series::push`: freezes first when the active part has fewer than ten free slots. -/
def push (s : Series V) (e : Entry V) : Series V :=
  let s := if s.active.length + 10 > s.capacity then s.freeze else s
  { s with active := s.active ++ [e] }

/-- `Series::compact`: freezes the active part and merges the frozen parts into one; returns
the compacted series and its only frozen part. -/
def compact (s : Series V) : Series V × List (Entry V) :=
  let s := s.freeze
  let s := if 1 < s.frozen.length then { s with frozen := [s.frozen.flatten] } else s
  (s, s.frozen.headD [])

@[simp] lemma values_new : (new : Series V).values = [] := rfl

@[simp] lemma values_freeze (s : Series V) : s.freeze.values = s.values := by
  unfold freeze values
  split <;> simp

@[simp] lemma capacity_freeze (s : Series V) : s.freeze.capacity = s.capacity := by
  unfold freeze
  split <;> rfl

/-- A push appends its row to the series, whether or not it froze first. -/
@[simp] lemma values_push (s : Series V) (e : Entry V) : (s.push e).values = s.values ++ [e] := by
  unfold push
  split
  · have h := values_freeze s
    simp only [values] at h ⊢
    rw [← List.append_assoc, h]
  · simp [values]

@[simp] lemma capacity_push (s : Series V) (e : Entry V) : (s.push e).capacity = s.capacity := by
  unfold push
  split <;> simp

/-- After a freeze the active part is empty. -/
@[simp] lemma active_freeze (s : Series V) : s.freeze.active = [] := by
  unfold freeze
  split
  · rfl
  · rename_i h
    simpa using h

/-- Compaction returns every row of the series, oldest first. -/
lemma compact_values (s : Series V) : (s.compact).2 = s.values := by
  have hv : s.freeze.frozen.flatten = s.values := by
    have h := values_freeze s
    simpa [values, active_freeze] using h
  unfold compact
  simp only
  split
  · simp [hv]
  · rename_i hlen
    rcases hfz : s.freeze.frozen with _ | ⟨p, _ | ⟨q, l⟩⟩
    · simp [hfz] at hv ⊢
      exact hv
    · simp [hfz] at hv ⊢
      exact hv
    · simp [hfz] at hlen

end Series

/-! ## The series map -/

section SeriesMap

variable [LinearOrder K]

/-- `SeriesSet::push_to_series` on the key-ordered association list that models the
`BTreeMap`: pushes into the series of `k`, creating it in key order if it is missing. -/
def pushToSeries : List (K × Series V) → K → Entry V → List (K × Series V)
  | [], k, e => [(k, Series.new.push e)]
  | (k', s) :: m, k, e =>
    if k = k' then (k', s.push e) :: m
    else if k < k' then (k, Series.new.push e) :: (k', s) :: m
    else (k', s) :: pushToSeries m k e

/-- The rows the map holds for key `k`. -/
def seriesValues (m : List (K × Series V)) (k : K) : List (Entry V) :=
  (m.filter (fun p => p.1 = k)).flatMap (fun p => p.2.values)

lemma seriesValues_cons (k k' : K) (s : Series V) (m : List (K × Series V)) :
    seriesValues ((k', s) :: m) k = (if k' = k then s.values else []) ++ seriesValues m k := by
  unfold seriesValues
  by_cases h : k' = k <;> simp [h]

lemma seriesValues_of_lt {m : List (K × Series V)} {k : K} (hm : ∀ p ∈ m, k < p.1) :
    seriesValues m k = [] := by
  unfold seriesValues
  rw [List.filter_eq_nil_iff.mpr (fun p hp => by simpa using (hm p hp).ne')]
  rfl

/-- Every key of the map after a push is the pushed key or a key it had before. -/
lemma mem_pushToSeries {m : List (K × Series V)} {k : K} {e : Entry V} {q : K × Series V}
    (hq : q ∈ pushToSeries m k e) : q.1 = k ∨ q.1 ∈ m.map Prod.fst := by
  induction m with
  | nil => simp_all [pushToSeries]
  | cons p m ih =>
    obtain ⟨k', s⟩ := p
    unfold pushToSeries at hq
    split at hq
    · rename_i h
      rcases List.mem_cons.mp hq with rfl | hq
      · exact .inl h.symm
      · exact .inr (List.mem_map_of_mem (List.mem_cons_of_mem _ hq))
    · split at hq
      · rcases List.mem_cons.mp hq with rfl | hq
        · exact .inl rfl
        · exact .inr (List.mem_map_of_mem hq)
      · rcases List.mem_cons.mp hq with rfl | hq
        · exact .inr (List.mem_map_of_mem List.mem_cons_self)
        · rcases ih hq with h | h
          · exact .inl h
          · exact .inr (by simp_all)

/-- The keys of the map stay strictly increasing. -/
lemma pushToSeries_sorted {m : List (K × Series V)} (hm : m.Pairwise (fun a b => a.1 < b.1))
    (k : K) (e : Entry V) : (pushToSeries m k e).Pairwise (fun a b => a.1 < b.1) := by
  induction m with
  | nil => simp [pushToSeries]
  | cons p m ih =>
    obtain ⟨k', s⟩ := p
    have hk' := List.pairwise_cons.mp hm
    unfold pushToSeries
    split
    · rename_i hk
      subst hk
      exact List.pairwise_cons.mpr ⟨fun b hb => hk'.1 b hb, hk'.2⟩
    · split
      · rename_i hne hlt
        refine List.pairwise_cons.mpr ⟨fun b hb => ?_, hm⟩
        rcases List.mem_cons.mp hb with rfl | hb
        · exact hlt
        · exact hlt.trans (hk'.1 b hb)
      · rename_i hne hnlt
        have hgt : k' < k := lt_of_le_of_ne (not_lt.mp hnlt) (Ne.symm hne)
        refine List.pairwise_cons.mpr ⟨fun b hb => ?_, ih hk'.2⟩
        rcases mem_pushToSeries hb with h | h
        · rw [h]; exact hgt
        · obtain ⟨q, hq, hqb⟩ := List.mem_map.mp h
          rw [← hqb]
          exact hk'.1 q hq

/-- Pushing a row for `k` appends it to the values of `k` and leaves every other key as it
was. -/
lemma seriesValues_pushToSeries {m : List (K × Series V)}
    (hm : m.Pairwise (fun a b => a.1 < b.1)) (k k₀ : K) (e : Entry V) :
    seriesValues (pushToSeries m k e) k₀ =
      seriesValues m k₀ ++ (if k = k₀ then [e] else []) := by
  induction m with
  | nil =>
    by_cases h : k = k₀ <;> simp [pushToSeries, seriesValues, h]
  | cons p m ih =>
    obtain ⟨k', s⟩ := p
    have hk' := List.pairwise_cons.mp hm
    unfold pushToSeries
    split
    · rename_i hk
      subst hk
      simp only [seriesValues_cons, Series.values_push]
      by_cases h : k = k₀
      · -- the series of `k` is the only one of its key: the tail holds keys above `k`
        subst h
        simp [seriesValues_of_lt hk'.1]
      · simp [h]
    · split
      · rename_i hne hlt
        simp only [seriesValues_cons, Series.values_push, Series.values_new, List.nil_append]
        by_cases h : k = k₀
        · subst h
          have hrest : seriesValues m k = [] :=
            seriesValues_of_lt (fun q hq => hlt.trans (hk'.1 q hq))
          simp [Ne.symm hne, hrest]
        · by_cases h' : k' = k₀ <;> simp [h, h']
      · simp only [seriesValues_cons, ih hk'.2, List.append_assoc]

/-- The `BTreeMap` of series: an association list in strictly increasing key order. -/
structure SeriesMap (K V : Type) [LinearOrder K] where
  series : List (K × Series V)
  sorted : series.Pairwise (fun a b => a.1 < b.1)

namespace SeriesMap

/-- The empty map of a new memtable. -/
def empty : SeriesMap K V := ⟨[], List.Pairwise.nil⟩

/-- `SeriesSet::push_to_series`. -/
def push (m : SeriesMap K V) (k : K) (e : Entry V) : SeriesMap K V :=
  ⟨pushToSeries m.series k e, pushToSeries_sorted m.sorted k e⟩

/-- `TimeSeriesMemtable::write` after the primary keys have been encoded: pushes the rows one
after the other. -/
def writeRows (m : SeriesMap K V) (rows : List (Row K V)) : SeriesMap K V :=
  rows.foldl (fun m r => m.push r.key r.toEntry) m

/-- The run lemma of writes: after writing `rows`, the series of every key holds the rows it
held before followed by the written rows of that key, in write order. -/
lemma values_writeRows (m : SeriesMap K V) (rows : List (Row K V)) (k : K) :
    seriesValues (m.writeRows rows).series k =
      seriesValues m.series k ++ (rows.filter (fun r => r.key = k)).map Row.toEntry := by
  induction rows generalizing m with
  | nil => simp [writeRows]
  | cons r rows ih =>
    have hstep : m.writeRows (r :: rows) = (m.push r.key r.toEntry).writeRows rows := rfl
    rw [hstep, ih]
    simp only [push]
    rw [seriesValues_pushToSeries m.sorted]
    by_cases h : r.key = k <;> simp [h]

end SeriesMap

end SeriesMap

/-! ## Reading the memtable -/

section Iter

/-- `Values::to_batch`: the batch of a series' values, sorted and, when `dedup` is set,
deduplicated by timestamp. -/
def toBatch (k : K) (values : List (Entry V)) (dedup : Bool) : Batch K V :=
  (Batch.mk k values).sort dedup

/-- The batches `Iter` yields, one per series in key order: compact, `to_batch`, then
`filter_by_sequence`. -/
def iterBatches (m : List (K × Series V)) (dedup : Bool) (sequence : Option ℕ) :
    List (Batch K V) :=
  m.map (fun p => (toBatch p.1 (p.2.compact).2 dedup).filterBySequence sequence)

/-- The rows of a read, in the order the batches yield them. -/
def iterRows (m : List (K × Series V)) (dedup : Bool) (sequence : Option ℕ) :
    List (Row K V) :=
  (iterBatches m dedup sequence).flatMap Batch.rows

lemma filterBySequence_none (b : Batch K V) : b.filterBySequence none = b := rfl

/-- Without a snapshot bound a read yields every series sorted (and deduplicated when the
memtable deduplicates) in key order. -/
lemma iterBatches_none (m : List (K × Series V)) (dedup : Bool) :
    iterBatches m dedup none = m.map (fun p => toBatch p.1 p.2.values dedup) := by
  simp [iterBatches, filterBySequence_none, Series.compact_values]

/-- Every batch of a read is sorted by timestamp and sequence descending: filtering by
sequence keeps a sublist of a sorted batch. -/
lemma iterBatches_sorted (m : List (K × Series V)) (dedup : Bool) (sequence : Option ℕ) :
    ∀ b ∈ iterBatches m dedup sequence, b.entries.Pairwise Entry.SortLe := by
  intro b hb
  obtain ⟨p, -, rfl⟩ := List.mem_map.mp hb
  have hs := Batch.sort_sorted (Batch.mk p.1 (p.2.compact).2) dedup
  unfold Batch.filterBySequence
  split
  · split
    · exact hs
    · exact hs.sublist List.filter_sublist
  · exact hs

variable [LinearOrder K]

/-- A snapshot read of the rows written with sequence at most `s`: the newest row of every
`(key, timestamp)` among them, in key and timestamp order.  This is what the scan's
`sequence` bound promises ("only rows with a sequence number lesser or equal to this value
will be returned"). -/
def snapshotRows (written : List (Row K V)) (s : ℕ) : List (Row K V) :=
  newestRows ((written.filter (fun r => r.seq ≤ s)).insertionSort Row.Precedes)

/-- Two rows of one key: `(ts 2, seq 1)`, then `(ts 1, seq 2)`. -/
def twoTimestampsWritten : List (Row ℕ ℕ) :=
  [⟨0, 2, 1, .put, [some 7]⟩, ⟨0, 1, 2, .put, [some 8]⟩]

/-- Two versions of one `(key, timestamp)`: `(ts 1, seq 1)`, then `(ts 1, seq 2)`. -/
def twoVersionsWritten : List (Row ℕ ℕ) :=
  [⟨0, 1, 1, .put, [some 7]⟩, ⟨0, 1, 2, .put, [some 8]⟩]

/-- Reads of a deduplicating memtable with snapshot bound `1` are not snapshots.  With two
timestamps, the read returns the row of sequence `2` as well, because the bound is compared
with the sequence of the last row only.  With two versions of one timestamp, the read
returns nothing: deduplication keeps the version of sequence `2` before the bound removes
it, so the version of sequence `1` is lost. -/
theorem iterRows_ne_snapshotRows :
    iterRows (SeriesMap.empty.writeRows twoTimestampsWritten).series true (some 1) =
        [⟨0, 1, 2, .put, [some 8]⟩, ⟨0, 2, 1, .put, [some 7]⟩] ∧
      snapshotRows twoTimestampsWritten 1 = [⟨0, 2, 1, .put, [some 7]⟩] ∧
      iterRows (SeriesMap.empty.writeRows twoVersionsWritten).series true (some 1) = [] ∧
      snapshotRows twoVersionsWritten 1 = [⟨0, 1, 1, .put, [some 7]⟩] := by
  refine ⟨?_, ?_, ?_, ?_⟩ <;> decide

end Iter

end Greptime
