import Greptime.Foundations.Runs
import Greptime.Foundations.Lex
import Mathlib.Data.Prod.Lex

/-!
# Batches of rows (`mito2::read::Batch`)

A `Batch` is the unit every reader of the storage engine passes on: the rows of one primary
key, stored column by column (timestamps, sequences, op types and one vector per field).  The
model keeps the primary key once and the other columns row by row, as a list of `Entry`s.
Every columnar operation of the source (`slice`, `filter`, `take_in_place`) applies one
selection of row indices to every column, so the row-wise list is the same data with the
"all columns permuted consistently" property built in.

Timestamps are the native `i64` values of the region's time index: every batch of a region
uses the one unit of its time index column, so comparing two `Timestamp`s of a batch is
comparing their values.  Sequences are `u64`, modelled by `ℕ`.  Field values are left
abstract (`V`), with `none` standing for a null.

The order all sorted readers agree on is `(primary key asc, timestamp asc, sequence desc)`:
`Row.Precedes` below.  A `Row` is an entry together with its primary key, which is what a
reader sees once the batches of a stream are concatenated (`Batch.rows`).

The source functions modelled here are `Batch::slice`, `Batch::filter_deleted`,
`Batch::filter_by_sequence` and `Batch::sort`; the specifications readers are compared with
(`newestRows`, `lastRowDedup`) close the file.
-/

namespace Greptime

/-- `api::v1::OpType`. -/
inductive OpType
  | delete
  | put
  deriving DecidableEq, Repr

/-- One row of a `Batch`: every column but the primary key. -/
structure Entry (V : Type) where
  ts : ℤ
  seq : ℕ
  op : OpType
  fields : List (Option V)
  deriving DecidableEq, Repr

/-- A row of a stream: an entry with the primary key of its batch. -/
structure Row (K V : Type) where
  key : K
  ts : ℤ
  seq : ℕ
  op : OpType
  fields : List (Option V)
  deriving DecidableEq, Repr

/-- `mito2::read::Batch`: rows of one primary key. -/
structure Batch (K V : Type) where
  primaryKey : K
  entries : List (Entry V)
  deriving DecidableEq, Repr

variable {K V : Type}

/-- The row an entry of a batch with primary key `k` stands for. -/
def Entry.toRow (k : K) (e : Entry V) : Row K V := ⟨k, e.ts, e.seq, e.op, e.fields⟩

/-- The row without its primary key. -/
def Row.toEntry (r : Row K V) : Entry V := ⟨r.ts, r.seq, r.op, r.fields⟩

@[simp] lemma Entry.toRow_toEntry (k : K) (e : Entry V) : (e.toRow k).toEntry = e := rfl

@[simp] lemma Entry.toRow_key (k : K) (e : Entry V) : (e.toRow k).key = k := rfl

@[simp] lemma Entry.toRow_ts (k : K) (e : Entry V) : (e.toRow k).ts = e.ts := rfl

@[simp] lemma Entry.toRow_seq (k : K) (e : Entry V) : (e.toRow k).seq = e.seq := rfl

@[simp] lemma Entry.toRow_op (k : K) (e : Entry V) : (e.toRow k).op = e.op := rfl

@[simp] lemma Entry.toRow_fields (k : K) (e : Entry V) : (e.toRow k).fields = e.fields := rfl

namespace Batch

/-- The rows of a batch, keyed by its primary key. -/
def rows (b : Batch K V) : List (Row K V) := b.entries.map (Entry.toRow b.primaryKey)

/-- `Batch::num_rows`. -/
def numRows (b : Batch K V) : ℕ := b.entries.length

/-- `Batch::is_empty`. -/
def isEmpty (b : Batch K V) : Bool := b.entries.isEmpty

/-- `Batch::first_timestamp`. -/
def firstTimestamp (b : Batch K V) : Option ℤ := b.entries.head?.map Entry.ts

/-- `Batch::last_timestamp`. -/
def lastTimestamp (b : Batch K V) : Option ℤ := b.entries.getLast?.map Entry.ts

/-- `Batch::first_sequence`. -/
def firstSequence (b : Batch K V) : Option ℕ := b.entries.head?.map Entry.seq

/-- `Batch::last_sequence`. -/
def lastSequence (b : Batch K V) : Option ℕ := b.entries.getLast?.map Entry.seq

/-- `Batch::timestamps_native`: the timestamps, or `None` for an empty batch. -/
def timestampsNative (b : Batch K V) : Option (List ℤ) :=
  if b.entries.isEmpty then none else some (b.entries.map Entry.ts)

/-- `Batch::slice`: `length` rows from `offset`.  The source panics when
`offset + length > num_rows`; every caller modelled here stays in bounds. -/
def slice (b : Batch K V) (offset length : ℕ) : Batch K V :=
  { b with entries := (b.entries.drop offset).take length }

/-- `Batch::filter_deleted`: removes rows whose op type is `Delete`. -/
def filterDeleted (b : Batch K V) : Batch K V :=
  { b with entries := b.entries.filter (fun e => e.op != .delete) }

/-- `Batch::filter_by_sequence`.  The source returns early, leaving the batch whole, when
the bound is at least the sequence of the *last* row; otherwise it keeps the rows whose
sequence is at most the bound. -/
def filterBySequence (b : Batch K V) (sequence : Option ℕ) : Batch K V :=
  match sequence, b.lastSequence with
  | some s, some last =>
    if s ≥ last then b else { b with entries := b.entries.filter (fun e => e.seq ≤ s) }
  | _, _ => b

end Batch

/-- Whether a row survives the filter of deleted rows when `filterDeleted` is set. -/
def Row.visible (filterDeleted : Bool) (r : Row K V) : Bool := !filterDeleted || r.op != .delete

@[simp] lemma Row.visible_false : Row.visible (K := K) (V := V) false = fun _ => true := rfl

@[simp] lemma Row.visible_true (r : Row K V) : r.visible true = (r.op != .delete) := rfl

namespace Batch

@[simp] lemma rows_nil (k : K) : (Batch.mk k ([] : List (Entry V))).rows = [] := rfl

@[simp] lemma rows_cons (k : K) (e : Entry V) (es : List (Entry V)) :
    (Batch.mk k (e :: es)).rows = e.toRow k :: (Batch.mk k es).rows := rfl

lemma rows_eq_nil_iff {b : Batch K V} : b.rows = [] ↔ b.isEmpty = true := by
  simp [rows, isEmpty]

/-- Filtering deleted rows when `filterDeleted` is set keeps the visible rows. -/
lemma rows_filterDeleted_if (filterDeleted : Bool) (b : Batch K V) :
    (if filterDeleted then b.filterDeleted else b).rows = b.rows.filter (Row.visible filterDeleted) := by
  cases filterDeleted
  · simp
  · simp [rows, filterDeleted, List.filter_map, Function.comp_def]

/-- A reader answering `None` for an empty batch outputs the same rows as one answering
with the empty batch. -/
lemma rows_ite_isEmpty (b : Batch K V) :
    (if b.isEmpty then none else some b).toList.flatMap rows = b.rows := by
  split
  · rename_i h
    simp [rows_eq_nil_iff.mpr h]
  · simp

end Batch

/-! ## Sorting a batch -/

/-- The order of `Batch::sort`: the rows are converted to the byte rows of
`(timestamp, sequence desc)` and compared as bytes, which is timestamp ascending and, for
equal timestamps, sequence descending. -/
def Entry.SortLe (a b : Entry V) : Prop := a.ts < b.ts ∨ (a.ts = b.ts ∧ b.seq ≤ a.seq)

instance : DecidableRel (Entry.SortLe (V := V)) := fun a b =>
  inferInstanceAs (Decidable (a.ts < b.ts ∨ (a.ts = b.ts ∧ b.seq ≤ a.seq)))

instance : Std.Total (Entry.SortLe (V := V)) where
  total a b := Lex.total_asc_desc a.ts b.ts a.seq b.seq

instance : IsTrans (Entry V) Entry.SortLe where
  trans _ _ _ hab hbc := Lex.trans_asc_desc hab hbc

namespace Batch

/-- `Batch::sort`: orders the rows by timestamp and sequence descending and, when `dedup` is
set, keeps only the first row of every timestamp (`Vec::dedup_by` on the timestamp bytes).
The source uses an unstable sort; insertion sort is one of its permitted outcomes, and the
two can differ only in the order of rows equal in both timestamp and sequence. -/
def sort (b : Batch K V) (dedup : Bool) : Batch K V :=
  let sorted := b.entries.insertionSort Entry.SortLe
  { b with entries := if dedup then dropRepeats Entry.ts none sorted else sorted }

@[simp] lemma primaryKey_sort (b : Batch K V) (dedup : Bool) :
    (b.sort dedup).primaryKey = b.primaryKey := rfl

@[simp] lemma primaryKey_filterBySequence (b : Batch K V) (s : Option ℕ) :
    (b.filterBySequence s).primaryKey = b.primaryKey := by
  unfold filterBySequence
  split
  · split <;> rfl
  · rfl

/-- `filter_by_sequence(Some(s))` keeps exactly the rows of sequence at most `s` when `s` is
below the last row's sequence, or when no row is above `s`: the early return for a bound at least
the last row's sequence is right only when no row is newer than the bound. -/
lemma entries_filterBySequence_eq_filter_iff (b : Batch K V) (s : ℕ) :
    (b.filterBySequence (some s)).entries = b.entries.filter (fun e => decide (e.seq ≤ s)) ↔
      (∀ last ∈ b.lastSequence, s < last) ∨ ∀ e ∈ b.entries, e.seq ≤ s := by
  unfold filterBySequence
  cases hlast : b.lastSequence with
  | none =>
    have hnil : b.entries = [] := by simpa [lastSequence] using hlast
    simp [hnil]
  | some last =>
    by_cases hs : s ≥ last
    · -- the early return: the batch is kept whole
      have hnot : ¬ s < last := Nat.not_lt.mpr hs
      simp only [hs, if_true, eq_comm (a := b.entries), List.filter_eq_self, decide_eq_true_eq,
        Option.mem_def, Option.some.injEq, forall_eq', hnot, false_or]
    · have hlt : s < last := Nat.lt_of_not_le hs
      simp [hs, hlt]

/-- A batch sorted by timestamp and sequence descending whose last row is not its newest: with
the bound `3` between the two sequences, `filter_by_sequence` returns early and keeps the row of
sequence `5`. -/
theorem filterBySequence_keeps_newer_row :
    let b : Batch ℕ ℕ := ⟨0, [⟨1, 5, .put, []⟩, ⟨2, 1, .put, []⟩]⟩
    b.entries.Pairwise Entry.SortLe ∧ (b.filterBySequence (some 3)).entries = b.entries ∧
      b.entries.filter (fun e => decide (e.seq ≤ 3)) = [⟨2, 1, .put, []⟩] := by
  decide

lemma sort_sorted (b : Batch K V) (dedup : Bool) :
    (b.sort dedup).entries.Pairwise Entry.SortLe := by
  have h := List.pairwise_insertionSort Entry.SortLe b.entries
  unfold sort
  cases dedup
  · exact h
  · exact h.sublist (dropRepeats_sublist _ _ _)

/-- Deduplicating by timestamp any ordering of rows by timestamp and sequence descending, which
is what `sort_unstable_by_key` may return, keeps a sub-multiset of the rows, one per
timestamp, in increasing timestamp order, each of the largest sequence of its timestamp. -/
lemma dropRepeats_ts_spec {l l' : List (Entry V)} (hperm : l'.Perm l)
    (hsorted : l'.Pairwise Entry.SortLe) :
    (dropRepeats Entry.ts none l').Subperm l ∧
      (dropRepeats Entry.ts none l').Pairwise Entry.SortLe ∧
      (dropRepeats Entry.ts none l').Pairwise (fun e e' => e.ts < e'.ts) ∧
      (∀ e ∈ dropRepeats Entry.ts none l', ∀ e' ∈ l, e'.ts = e.ts → e'.seq ≤ e.seq) ∧
      ∀ e' ∈ l, ∃ e ∈ dropRepeats Entry.ts none l', e.ts = e'.ts := by
  have hts : l'.Pairwise (fun e e' => e.ts ≤ e'.ts) :=
    hsorted.imp fun h => h.elim le_of_lt fun h => h.1.le
  refine ⟨(dropRepeats_sublist _ _ _).subperm.trans hperm.subperm,
    hsorted.sublist (dropRepeats_sublist _ _ _), dropRepeats_pairwise_lt Entry.ts none hts,
    fun e he e' he' hts' => ?_, fun e' he' => ?_⟩
  · exact le_of_mem_dropRepeats Entry.ts Entry.seq none hsorted he (hperm.mem_iff.mpr he') hts'
  · rcases exists_mem_dropRepeats Entry.ts none (hperm.mem_iff.mpr he') with h | h
    · cases h
    · exact h

/-- `sort(false)` keeps every row and `sort(true)` a sub-multiset of them, each ordered by
timestamp and sequence descending; `sort(true)` keeps one row per timestamp, in increasing
timestamp order, and it is a row of the largest sequence of its timestamp. -/
theorem sort_rows_spec (b : Batch K V) :
    ((b.sort false).entries.Perm b.entries ∧ (b.sort false).entries.Pairwise Entry.SortLe) ∧
    ((b.sort true).entries.Subperm b.entries ∧ (b.sort true).entries.Pairwise Entry.SortLe ∧
      (b.sort true).entries.Pairwise (fun e e' => e.ts < e'.ts) ∧
      (∀ e ∈ (b.sort true).entries, ∀ e' ∈ b.entries, e'.ts = e.ts → e'.seq ≤ e.seq) ∧
      ∀ e' ∈ b.entries, ∃ e ∈ (b.sort true).entries, e.ts = e'.ts) :=
  ⟨⟨List.perm_insertionSort Entry.SortLe b.entries, sort_sorted b false⟩,
    dropRepeats_ts_spec (List.perm_insertionSort Entry.SortLe b.entries)
      (List.pairwise_insertionSort Entry.SortLe b.entries)⟩

end Batch

/-! ## Rows in stream order -/

section Order

variable [LinearOrder K]

/-- The `(primary key, timestamp)` of a row, ordered lexicographically. -/
def Row.timeKey (r : Row K V) : K ×ₗ ℤ := toLex (r.key, r.ts)

omit [LinearOrder K] in
/-- The rows of a batch without repeated timestamps have pairwise distinct keys. -/
lemma Batch.rows_pairwise_ne {b : Batch K V} (h : (b.entries.map Entry.ts).Nodup) :
    b.rows.Pairwise (fun r r' => r.timeKey ≠ r'.timeKey) := by
  unfold Batch.rows
  rw [List.pairwise_map]
  refine (List.pairwise_map.mp h).imp (fun hne hkey => hne ?_)
  simpa [Row.timeKey] using hkey

/-- `a` may come before `b` in a sorted stream: `(key, timestamp)` ascending and, for equal
`(key, timestamp)`, sequence descending. -/
def Row.Precedes (a b : Row K V) : Prop :=
  a.timeKey < b.timeKey ∨ (a.timeKey = b.timeKey ∧ b.seq ≤ a.seq)

instance : DecidableRel (Row.Precedes (K := K) (V := V)) := fun a b =>
  inferInstanceAs (Decidable (a.timeKey < b.timeKey ∨ (a.timeKey = b.timeKey ∧ b.seq ≤ a.seq)))

instance : Std.Total (Row.Precedes (K := K) (V := V)) where
  total a b := Lex.total_asc_desc a.timeKey b.timeKey a.seq b.seq

instance : IsTrans (Row K V) Row.Precedes where
  trans _ _ _ hab hbc := Lex.trans_asc_desc hab hbc

/-- A stream of rows sorted by `(primary key, timestamp asc, sequence desc)`. -/
def RowsSorted (rows : List (Row K V)) : Prop := rows.Pairwise Row.Precedes

instance (rows : List (Row K V)) : Decidable (RowsSorted rows) :=
  inferInstanceAs (Decidable (rows.Pairwise Row.Precedes))

/-- The guarantee `MergeReader` gives its consumers: the concatenated rows are sorted by
`(primary key, timestamp asc, sequence desc)`, and no batch repeats a timestamp.  Empty
batches may appear anywhere. -/
structure MergeSorted (bs : List (Batch K V)) : Prop where
  sorted : RowsSorted (bs.flatMap Batch.rows)
  nodupTs : ∀ b ∈ bs, (b.entries.map Entry.ts).Nodup

instance (bs : List (Batch K V)) : Decidable (MergeSorted bs) :=
  decidable_of_iff (RowsSorted (bs.flatMap Batch.rows) ∧ ∀ b ∈ bs, (b.entries.map Entry.ts).Nodup)
    ⟨fun h => ⟨h.1, h.2⟩, fun h => ⟨h.1, h.2⟩⟩

/-! ## What deduplication is for -/

/-- The newest row of every `(primary key, timestamp)`: on a sorted stream, the first row of
each run of equal `(key, timestamp)`. -/
def newestRows (rows : List (Row K V)) : List (Row K V) := dropRepeats Row.timeKey none rows

/-- Last-row deduplication: the newest row of every `(key, timestamp)`, without the deleted
ones when `filterDeleted` is set. -/
def lastRowDedup (filterDeleted : Bool) (rows : List (Row K V)) : List (Row K V) :=
  (newestRows rows).filter (Row.visible filterDeleted)

/-- What last-row deduplication of a sorted stream `rows` promises of its output `out`: rows of
the input in input order, one per `(key, timestamp)`, each the one of largest sequence for its
`(key, timestamp)`; with `filterDeleted`, no delete is output, and a `(key, timestamp)` is
missing only when its newest row is a delete. -/
structure IsLastRowDedup (filterDeleted : Bool) (rows out : List (Row K V)) : Prop where
  sublist : out.Sublist rows
  increasing : out.Pairwise (fun a b => a.timeKey < b.timeKey)
  newest : ∀ r ∈ out, ∀ r' ∈ rows, r'.timeKey = r.timeKey → r'.seq ≤ r.seq
  notDeleted : filterDeleted → ∀ r ∈ out, r.op ≠ .delete
  complete : ∀ r' ∈ rows, (∃ r ∈ out, r.timeKey = r'.timeKey) ∨
    (filterDeleted ∧ ∃ r ∈ rows, r.timeKey = r'.timeKey ∧ r.op = .delete ∧
      ∀ r'' ∈ rows, r''.timeKey = r'.timeKey → r''.seq ≤ r.seq)

lemma RowsSorted.timeKey_le {rows : List (Row K V)} (h : RowsSorted rows) :
    rows.Pairwise (fun a b => a.timeKey ≤ b.timeKey) :=
  h.imp (fun h => h.elim le_of_lt (fun h => h.1.le))

/-- `lastRowDedup` keeps what last-row deduplication promises. -/
lemma isLastRowDedup_lastRowDedup (filterDeleted : Bool) {rows : List (Row K V)}
    (h : RowsSorted rows) : IsLastRowDedup filterDeleted rows (lastRowDedup filterDeleted rows) where
  sublist := List.filter_sublist.trans (dropRepeats_sublist _ _ _)
  increasing := (dropRepeats_pairwise_lt _ _ h.timeKey_le).sublist List.filter_sublist
  newest r hr r' hr' hkey :=
    le_of_mem_dropRepeats Row.timeKey Row.seq none h (List.mem_of_mem_filter hr) hr' hkey
  notDeleted hfd r hr := by
    have hkeep := (List.mem_filter.mp hr).2
    simpa [hfd] using hkeep
  complete r' hr' := by
    obtain hnone | ⟨r, hr, hkey⟩ := exists_mem_dropRepeats Row.timeKey none hr'
    · exact absurd hnone (by simp)
    have hnewest : ∀ r'' ∈ rows, r''.timeKey = r'.timeKey → r''.seq ≤ r.seq :=
      fun r'' hr'' hk => le_of_mem_dropRepeats Row.timeKey Row.seq none h hr hr'' (hk.trans hkey.symm)
    by_cases hkeep : r.visible filterDeleted = true
    · exact .inl ⟨r, List.mem_filter.mpr ⟨hr, hkeep⟩, hkey⟩
    · have hfd : filterDeleted = true ∧ r.op = .delete := by
        cases filterDeleted
        · simp at hkeep
        · simpa using hkeep
      exact .inr ⟨hfd.1, r, mem_of_mem_dropRepeats _ hr, hkey, hfd.2, hnewest⟩

end Order

end Greptime
