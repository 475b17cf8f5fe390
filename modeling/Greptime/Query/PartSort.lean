import Greptime.Query.WindowSort
import Mathlib.Data.List.GetD

/-!
# The sort of each partition range (`PartSortExec`, `PartSortStream`)

`PartSortStream` sorts a stream that comes range by range: the input of a partition yields
the rows of its `PartitionRange`s in the order of the list.  It never reads where one range
ends and the next begins.  It buffers batches while their time index stays in the current
range; at the first value outside it (`try_find_next_range`) it cuts the batch there, sorts
the buffer and outputs it, moves to the next range, and looks at the rest of the batch again:
the rest joins the buffer if it is in the new range, and is kept as `evaluating_batch` to be
cut once more otherwise, so that a rest can pass over ranges with no rows.  Without a limit
the buffer is a list of batches sorted at once (`sort_all_buffer`); with a limit it is a
`TopK` heap that gives the first rows of the range in the order of the sort.

The model keeps the stream's state and its loop: `splitBatch` is `split_batch`, `pollStep` one
turn of the loop of `poll_next_inner`, and `run` polls the stream until it ends, with a bound
on the turns.  The sort kernel of Arrow that the stream calls is a parameter, `RowSort`, that
states what the stream relies on: the sort permutes the rows and leaves them in the order of
`sortLe`; `RowSort.mergeSort` is one such kernel.  The heap's `emit` is the first rows of that
sort.

`run_eq` says what a run outputs when the input keeps to its ranges: the ranges are apart and
in the order of the sort, and the input is the rows of the ranges one after the other, each
row in its range.  The stream then outputs, for each range with rows up to the last one, the
sort of its rows, or the first rows of that sort under a limit; it does so within a number of
turns bounded by the input and the ranges.
-/

namespace Greptime

namespace PartSort

open WindowSort

variable {α : Type}

/-- The errors the stream raises itself (`internal_err!`): the index of the current range
past the ranges, and the smallest and largest sorted value of a buffer outside the range. -/
inductive PartSortError
  | partitionIndexOutOfRange (idx len : ℕ)
  | outOfPartitionRange (min max curMin curMax : ℤ)
  deriving DecidableEq

/-- Arrow's `sort_to_indices` on the sort column, then `take_record_batch`: the rows in the
order of the sort.  The model takes this kernel as a parameter, with the two facts of it that
the stream relies on: it permutes the rows, and it leaves them in the order of `sortLe`. -/
structure RowSort (α : Type) where
  sortRows : (α → ℤ) → SortOptions → List α → List α
  perm : ∀ key opts rows, (sortRows key opts rows).Perm rows
  sorted : ∀ key opts rows,
    (sortRows key opts rows).Pairwise fun a b => sortLe key opts a b = true

/-- The merge sort of the standard library is such a kernel. -/
def RowSort.mergeSort : RowSort α where
  sortRows key opts rows := rows.mergeSort (sortLe key opts)
  perm key opts rows := List.mergeSort_perm rows (sortLe key opts)
  sorted key opts rows :=
    @List.pairwise_mergeSort _ (sortLe key opts) (fun _ _ _ => sortLe_trans key opts)
      (sortLe_total key opts) rows

@[simp] lemma RowSort.sortRows_eq_nil_iff (sorter : RowSort α) {key : α → ℤ}
    {opts : SortOptions} {rows : List α} : sorter.sortRows key opts rows = [] ↔ rows = [] := by
  rw [← List.length_eq_zero_iff, (sorter.perm key opts rows).length_eq, List.length_eq_zero_iff]

lemma RowSort.mem_sortRows (sorter : RowSort α) {key : α → ℤ} {opts : SortOptions}
    {rows : List α} {x : α} : x ∈ sorter.sortRows key opts rows ↔ x ∈ rows :=
  (sorter.perm key opts rows).mem_iff

/-- `TopK` of the sort expression: the rows inserted into the heap, of which `emit` gives the
first `k` in the order of the sort. -/
structure TopK (α : Type) where
  k : ℕ
  rows : List α

/-- `TopK::insert_batch`. -/
def TopK.insertBatch (top : TopK α) (batch : List α) : TopK α := ⟨top.k, top.rows ++ batch⟩

/-- `TopK::emit`, its batches concatenated. -/
def TopK.emit (sorter : RowSort α) (key : α → ℤ) (opts : SortOptions) (top : TopK α) :
    List α :=
  (sorter.sortRows key opts top.rows).take top.k

/-- `PartSortBuffer`: the batches of the range without a limit, the heap and its row count
with one. -/
inductive PartSortBuffer (α : Type)
  | all (batches : List (List α))
  | top (topK : TopK α) (cnt : ℕ)

/-- `push_buffer` on the buffer: the batch is kept, or inserted into the heap and counted. -/
def PartSortBuffer.push : PartSortBuffer α → List α → PartSortBuffer α
  | .all v, batch => .all (v ++ [batch])
  | .top heap cnt, batch => .top (heap.insertBatch batch) (cnt + batch.length)

/-- `PartSortBuffer::is_empty`. -/
def PartSortBuffer.isEmpty : PartSortBuffer α → Bool
  | .all v => v.isEmpty
  | .top _ cnt => cnt == 0

/-- `PartSortStream`: the sort kernel it calls, the sort expression (the time index of a row
and the options of the sort), the buffer, the limit, whether the input has ended, the ranges of
the partition, the index of the current one and the batch left to cut. -/
structure PartSortStream (α : Type) where
  sorter : RowSort α
  key : α → ℤ
  opts : SortOptions
  buffer : PartSortBuffer α
  limit : Option ℕ
  inputComplete : Bool
  partitionRanges : List PartitionRange
  curPartIdx : ℕ
  evaluatingBatch : Option (List α)

/-! ## The buffer -/

/-- The rows in the buffer, in the order they came. -/
def bufferRows : PartSortBuffer α → List α
  | .all v => v.flatten
  | .top t _ => t.rows

/-- What sorting a buffer of `rows` gives: the sorted rows, or the first `k` of them under the
limit `k`. -/
def finish (sorter : RowSort α) (key : α → ℤ) (opts : SortOptions) :
    Option ℕ → List α → List α
  | none, rows => sorter.sortRows key opts rows
  | some k, rows => (sorter.sortRows key opts rows).take k

/-- The empty buffer of a limit. -/
def emptyBuffer : Option ℕ → PartSortBuffer α
  | none => .all []
  | some k => .top ⟨k, []⟩ 0

/-- The buffer fits the limit: non-empty batches without one, a heap of `k` rows that counts the
rows it took under `Some k`. -/
def BufferOk (limit : Option ℕ) : PartSortBuffer α → Prop
  | .all v => limit = none ∧ ∀ b ∈ v, b ≠ []
  | .top t cnt => limit = some t.k ∧ cnt = t.rows.length

/-- A value in a partition range, which holds its start and not its end. -/
def InPart (r : PartitionRange) (t : ℤ) : Prop := r.start ≤ t ∧ t < r.end

@[simp] lemma finish_nil (sorter : RowSort α) (key : α → ℤ) (opts : SortOptions)
    (limit : Option ℕ) : finish sorter key opts limit [] = [] := by
  cases limit <;> simp [finish]

lemma bufferOk_emptyBuffer (limit : Option ℕ) :
    BufferOk limit (emptyBuffer limit : PartSortBuffer α) := by
  cases limit <;> simp [emptyBuffer, BufferOk]

@[simp] lemma bufferRows_emptyBuffer (limit : Option ℕ) :
    bufferRows (emptyBuffer limit : PartSortBuffer α) = [] := by
  cases limit <;> rfl

lemma isEmpty_iff {limit : Option ℕ} {buffer : PartSortBuffer α} (h : BufferOk limit buffer) :
    buffer.isEmpty = true ↔ bufferRows buffer = [] := by
  cases buffer with
  | all v =>
    simp only [PartSortBuffer.isEmpty, bufferRows, List.isEmpty_iff, List.flatten_eq_nil_iff]
    exact ⟨fun hv b hb => by simp [hv] at hb, fun hv => List.eq_nil_iff_forall_not_mem.mpr
      fun b hb => h.2 b hb (hv b hb)⟩
  | top t cnt =>
    simp only [PartSortBuffer.isEmpty, bufferRows, beq_iff_eq, h.2, List.length_eq_zero_iff]

@[simp] lemma bufferRows_push (buffer : PartSortBuffer α) (batch : List α) :
    bufferRows (buffer.push batch) = bufferRows buffer ++ batch := by
  cases buffer <;> simp [PartSortBuffer.push, bufferRows, TopK.insertBatch]

lemma bufferOk_push {limit : Option ℕ} {buffer : PartSortBuffer α} (h : BufferOk limit buffer)
    {batch : List α} (hne : batch ≠ []) : BufferOk limit (buffer.push batch) := by
  cases buffer with
  | all v =>
    refine ⟨h.1, fun b hb => ?_⟩
    rcases List.mem_append.mp hb with hb | hb
    · exact h.2 b hb
    · rw [List.mem_singleton.mp hb]
      exact hne
  | top t cnt =>
    simp only [PartSortBuffer.push, BufferOk, TopK.insertBatch, List.length_append]
    exact ⟨h.1, by rw [h.2]⟩

namespace PartSortStream

/-- `PartSortStream::new`: a heap of `limit` rows with a limit, a list of batches without. -/
def new (sorter : RowSort α) (key : α → ℤ) (opts : SortOptions) (limit : Option ℕ)
    (partitionRanges : List PartitionRange) : PartSortStream α :=
  ⟨sorter, key, opts, (match limit with
    | some limit => .top ⟨limit, []⟩ 0
    | none => .all []), limit, false, partitionRanges, 0, none⟩

/-- `check_in_range`, on the values of the first and the last row of the sorted buffer. -/
def checkInRange (st : PartSortStream α) (first last : ℤ) : Except PartSortError Unit :=
  match st.partitionRanges[st.curPartIdx]? with
  | none => .error (.partitionIndexOutOfRange st.curPartIdx st.partitionRanges.length)
  | some curRange =>
    let (min, max) := if first < last then (first, last) else (last, first)
    if ¬(min ≥ curRange.start ∧ max < curRange.end) then
      .error (.outOfPartitionRange min max curRange.start curRange.end)
    else .ok ()

/-- `try_find_next_range`: the position of the first value outside the current range. -/
def tryFindNextRange (st : PartSortStream α) (sortColumn : List ℤ) :
    Except PartSortError (Option ℕ) :=
  if sortColumn.isEmpty then .ok (some 0)
  else
    match st.partitionRanges[st.curPartIdx]? with
    | none => .error (.partitionIndexOutOfRange st.curPartIdx st.partitionRanges.length)
    | some curRange =>
      .ok (sortColumn.findIdx? fun val =>
        decide (val ≥ curRange.end) || decide (val < curRange.start))

/-- `push_buffer`. -/
def pushBuffer (st : PartSortStream α) (batch : List α) : PartSortStream α :=
  { st with buffer := st.buffer.push batch }

/-- `sort_buffer`: `sort_all_buffer` or `sort_top_buffer`, which empty the buffer whatever
they return.  A new heap takes `self.limit.unwrap()`. -/
def sortBuffer (st : PartSortStream α) : Except PartSortError (List α) × PartSortStream α :=
  match st.buffer with
  | .all buffer =>
    let st := { st with buffer := .all [] }
    if buffer.isEmpty then (.ok [], st)
    else
      let sorted := st.sorter.sortRows st.key st.opts buffer.flatten
      match sorted.head?, sorted.getLast? with
      | some first, some last =>
        match st.checkInRange (st.key first) (st.key last) with
        | .error e => (.error e, st)
        | .ok () => (.ok sorted, st)
      | _, _ => (.ok [], st)
  | .top topK _ =>
    (.ok (topK.emit st.sorter st.key st.opts),
      { st with buffer := .top ⟨st.limit.getD 0, []⟩ 0 })

/-- `split_batch`: a batch within the current range joins the buffer; else the batch is cut at
the first value outside the range, its head joins the buffer, the buffer is sorted, and the
stream moves to the next range with the rest, which joins the buffer if it is within that
range and is kept to be cut again otherwise.  The sorted batch, or its error, comes last. -/
def splitBatch (st : PartSortStream α) (batch : List α) :
    Except PartSortError (PartSortStream α × Option (List α)) :=
  if batch.length = 0 then .ok (st, none)
  else
    let sortColumn := batch.map st.key
    match st.tryFindNextRange sortColumn with
    | .error e => .error e
    | .ok none => .ok (st.pushBuffer batch, none)
    | .ok (some idx) =>
      let thisRange := batch.take idx
      let remainingRange := batch.drop idx
      let st := if thisRange.length ≠ 0 then st.pushBuffer thisRange else st
      let (sortedBatch, st) := st.sortBuffer
      let st := { st with curPartIdx := st.curPartIdx + 1 }
      match st.tryFindNextRange (sortColumn.drop idx) with
      | .error e => .error e
      | .ok next =>
        let st := if next.isSome then { st with evaluatingBatch := some remainingRange }
          else if remainingRange.length ≠ 0 then st.pushBuffer remainingRange else st
        match sortedBatch with
        | .error e => .error e
        | .ok sorted => .ok (st, if sorted.length = 0 then none else some sorted)

/-- How one turn of the loop of `poll_next_inner` ends: with a batch, with the end of the
stream, or going round again. -/
inductive Poll (α : Type)
  | ready (batch : List α)
  | finished
  | again

/-- A batch cut by `split_batch` as the loop returns it. -/
def pollSplit (input : List (List α)) :
    Except PartSortError (PartSortStream α × Option (List α)) →
      Except PartSortError (Poll α × PartSortStream α × List (List α))
  | .error e => .error e
  | .ok (st, some sorted) => .ok (.ready sorted, st, input)
  | .ok (st, none) => .ok (.again, st, input)

/-- The next batch of the input: the end of the input is marked, a batch is cut. -/
def pollInput (st : PartSortStream α) :
    List (List α) → Except PartSortError (Poll α × PartSortStream α × List (List α))
  | [] => .ok (.again, { st with inputComplete := true }, [])
  | batch :: input => pollSplit input (st.splitBatch batch)

/-- One turn of the loop of `poll_next_inner`: once the input has ended, the buffer is sorted
and output, then the stream ends; before that the batch left to cut is cut (`take` empties
it), else the next batch of the input is read. -/
def pollStep (st : PartSortStream α) (input : List (List α)) :
    Except PartSortError (Poll α × PartSortStream α × List (List α)) :=
  if st.inputComplete then
    if st.buffer.isEmpty then .ok (.finished, st, input)
    else
      let (sorted, st) := st.sortBuffer
      match sorted with
      | .error e => .error e
      | .ok sorted => .ok (.ready sorted, st, input)
  else
    let evaluating := st.evaluatingBatch
    let st := { st with evaluatingBatch := none }
    match evaluating with
    | some batch =>
      if batch.length ≠ 0 then pollSplit input (st.splitBatch batch) else st.pollInput input
    | none => st.pollInput input

/-- The stream polled until it ends, within `fuel` turns of the loop: the batches it outputs,
or its error; `none` when the turns run out. -/
def run : ℕ → PartSortStream α → List (List α) →
    Option (Except PartSortError (List (List α)))
  | 0, _, _ => none
  | fuel + 1, st, input =>
    match st.pollStep input with
    | .error e => some (.error e)
    | .ok (.finished, _, _) => some (.ok [])
    | .ok (.ready batch, st, input) => (run fuel st input).map (Except.map (batch :: ·))
    | .ok (.again, st, input) => run fuel st input

variable {st : PartSortStream α}

lemma checkInRange_eq_ok (st : PartSortStream α) {r : PartitionRange}
    (hr : st.partitionRanges[st.curPartIdx]? = some r)
    {first last : ℤ} (hfirst : InPart r first) (hlast : InPart r last) :
    st.checkInRange first last = .ok () := by
  unfold checkInRange
  unfold InPart at hfirst hlast
  rw [hr]
  by_cases hlt : first < last
  · simp only [if_pos hlt]
    rw [if_neg (by omega)]
  · simp only [if_neg hlt]
    rw [if_neg (by omega)]

/-- Sorting a buffer whose rows are in the current range: no error, and an empty buffer. -/
lemma sortBuffer_eq (h : BufferOk st.limit st.buffer)
    (hin : ∀ x ∈ bufferRows st.buffer, ∃ r, st.partitionRanges[st.curPartIdx]? = some r ∧
      InPart r (st.key x)) :
    st.sortBuffer = (.ok (finish st.sorter st.key st.opts st.limit (bufferRows st.buffer)),
      { st with buffer := emptyBuffer st.limit }) := by
  unfold sortBuffer
  split
  · rename_i v hv
    rw [hv] at h hin ⊢
    simp only [bufferRows] at hin ⊢
    rw [h.1]
    by_cases hempty : v.isEmpty = true
    · rw [if_pos hempty, List.isEmpty_iff.mp hempty, List.flatten_nil, finish_nil]
      rfl
    rw [if_neg hempty]
    -- the buffer holds rows, so its sort has a first and a last row, both in the range
    have hne : v.flatten ≠ [] := fun hnil => hempty ((isEmpty_iff h).mpr hnil)
    have hsorted_ne : st.sorter.sortRows st.key st.opts v.flatten ≠ [] :=
      mt st.sorter.sortRows_eq_nil_iff.mp hne
    obtain ⟨first, hfirst⟩ :=
      Option.ne_none_iff_exists'.mp (mt List.head?_eq_none_iff.mp hsorted_ne)
    obtain ⟨last, hlast⟩ :=
      Option.ne_none_iff_exists'.mp (mt List.getLast?_eq_none_iff.mp hsorted_ne)
    have hmem : ∀ x, x ∈ st.sorter.sortRows st.key st.opts v.flatten → x ∈ v.flatten :=
      fun _ => st.sorter.mem_sortRows.mp
    obtain ⟨r, hr, hfirst_in⟩ := hin first (hmem first (List.mem_of_head? hfirst))
    obtain ⟨r', hr', hlast_in⟩ := hin last (hmem last (List.mem_of_getLast? hlast))
    obtain rfl : r' = r := Option.some.inj (hr'.symm.trans hr)
    simp only [hfirst, hlast]
    rw [checkInRange_eq_ok { st with buffer := .all [], limit := none } hr hfirst_in hlast_in]
    rfl
  · rename_i t cnt hv
    rw [hv] at h
    simp only [hv, bufferRows, h.1, finish, TopK.emit, emptyBuffer, Option.getD_some]

/-- Pushing a batch only when it has rows, as `split_batch` does: the buffer grows by it. -/
lemma exists_pushBuffer_if (st : PartSortStream α) (l : List α) :
    ∃ buffer, (if l.length ≠ 0 then st.pushBuffer l else st) = { st with buffer := buffer } ∧
      bufferRows buffer = bufferRows st.buffer ++ l ∧
      ∀ limit, BufferOk limit st.buffer → BufferOk limit buffer := by
  by_cases hl : l = []
  · subst hl
    exact ⟨st.buffer, by simp, by simp, fun _ h => h⟩
  · refine ⟨st.buffer.push l, by simp [hl, pushBuffer], bufferRows_push _ _,
      fun _ h => bufferOk_push h hl⟩

/-- `split_batch` on a batch within the current range: it joins the buffer. -/
lemma splitBatch_of_none {b : List α} (hb : b ≠ [])
    (htry : st.tryFindNextRange (b.map st.key) = .ok none) :
    st.splitBatch b = .ok (st.pushBuffer b, none) := by
  unfold splitBatch
  rw [if_neg (by simpa using hb)]
  dsimp only
  rw [htry]

/-- `split_batch` cutting the batch `rest ++ rb` after `rest`: the sort of the buffer with
`rest` comes out, and `rb` is looked at in the next range. -/
lemma splitBatch_of_cut {rest rb : List α} (hb : rest ++ rb ≠ [])
    (htry : st.tryFindNextRange ((rest ++ rb).map st.key) = .ok (some rest.length))
    {sorted : List α} {st₁ : PartSortStream α}
    (hsort : (if rest.length ≠ 0 then st.pushBuffer rest else st).sortBuffer =
      (.ok sorted, st₁))
    {next : Option ℕ}
    (hnext : { st₁ with curPartIdx := st₁.curPartIdx + 1 }.tryFindNextRange (rb.map st.key) =
      .ok next) :
    st.splitBatch (rest ++ rb) =
      .ok ((if next.isSome then
          { st₁ with curPartIdx := st₁.curPartIdx + 1, evaluatingBatch := some rb }
        else if rb.length ≠ 0 then { st₁ with curPartIdx := st₁.curPartIdx + 1 }.pushBuffer rb
        else { st₁ with curPartIdx := st₁.curPartIdx + 1 }),
        if sorted.length = 0 then none else some sorted) := by
  unfold splitBatch
  rw [if_neg (by simpa using hb)]
  dsimp only
  rw [htry]
  simp only [List.take_left, List.drop_left, ← List.map_drop]
  rw [hsort]
  dsimp only
  rw [hnext]

end PartSortStream

/-! ## Ranges that the input keeps to -/

/-- Where `p` fails on `rest` and holds on `later`, a prefix `b` of `rest ++ later` stays in
`rest`, or first satisfies `p` where `later` begins. -/
lemma findIdx?_of_append_eq {β : Type} {p : β → Bool} {b t rest later : List β}
    (h : b ++ t = rest ++ later) (hrest : ∀ x ∈ rest, p x = false)
    (hlater : ∀ x ∈ later, p x = true) :
    (b.findIdx? p = none ∧ ∃ rest', rest = b ++ rest' ∧ t = rest' ++ later) ∨
      ∃ rb, rb ≠ [] ∧ b = rest ++ rb ∧ later = rb ++ t ∧
        b.findIdx? p = some rest.length := by
  rcases List.append_eq_append_iff.mp h with ⟨rest', hrest', ht⟩ | ⟨rb, hb, hlater'⟩
  · refine Or.inl ⟨List.findIdx?_eq_none_iff.mpr fun x hx => hrest x ?_, rest', hrest', ht⟩
    rw [hrest']
    exact List.mem_append_left _ hx
  · by_cases hrb : rb = []
    · -- the batch is `rest` itself
      subst hrb
      rw [List.append_nil] at hb
      subst hb
      exact Or.inl ⟨List.findIdx?_eq_none_iff.mpr hrest, [], by simp,
        by simpa using hlater'.symm⟩
    · obtain ⟨y, ys, rfl⟩ := List.exists_cons_of_ne_nil hrb
      have hy : p y = true := hlater y (by rw [hlater']; exact List.mem_cons_self)
      refine Or.inr ⟨y :: ys, hrb, hb, hlater', ?_⟩
      rw [hb, List.findIdx?_append, List.findIdx?_eq_none_iff.mpr hrest, List.findIdx?_cons, hy]
      simp

section Ranges

variable (sorter : RowSort α) (key : α → ℤ) (ranges : List PartitionRange)
  (rows : List (List α))

/-- The input keeps to the ranges: `rows` are the rows of each range, each in its range, and no
value is in two ranges. -/
structure Keeps : Prop where
  length_eq : rows.length = ranges.length
  mem : ∀ (i : ℕ) (r : PartitionRange), ranges[i]? = some r →
    ∀ x ∈ rows.getD i [], InPart r (key x)
  apart : ∀ (i j : ℕ) (r s : PartitionRange), i < j → ranges[i]? = some r →
    ranges[j]? = some s → ∀ t, InPart r t → ¬ InPart s t

/-- The stream is in the range `c` with the buffer `buf` and the rows `stream` still to read:
the buffer heads the rows of `c`, and the stream holds the rest of them and the rows of the
ranges after `c`. -/
def At (c : ℕ) (buf stream : List α) : Prop :=
  ∃ rest, buf ++ rest = rows.getD c [] ∧ stream = rest ++ (rows.drop (c + 1)).flatten

variable {sorter key ranges rows}

/-- The rows of the ranges after `c` are outside it. -/
lemma not_inPart_of_mem_drop (hk : Keeps key ranges rows) {c : ℕ} {r : PartitionRange}
    (hr : ranges[c]? = some r) {x : α} (hx : x ∈ (rows.drop (c + 1)).flatten) :
    ¬ InPart r (key x) := by
  obtain ⟨l, hl, hxl⟩ := List.mem_flatten.mp hx
  obtain ⟨i, hi⟩ := List.mem_iff_getElem?.mp hl
  rw [List.getElem?_drop] at hi
  have hlt : c + 1 + i < ranges.length := by
    rw [← hk.length_eq]
    exact (List.getElem?_eq_some_iff.mp hi).1
  have hs : ranges[c + 1 + i]? = some ranges[c + 1 + i] := List.getElem?_eq_getElem hlt
  have hxs : InPart ranges[c + 1 + i] (key x) :=
    hk.mem _ _ hs x (by rw [List.getD_eq_getElem?_getD, hi]; exact hxl)
  exact fun hxr => hk.apart c (c + 1 + i) r _ (by omega) hr hs (key x) hxr hxs

/-- The buffer is in the current range. -/
lemma inPart_of_at (hk : Keeps key ranges rows) {c : ℕ} {buf stream : List α}
    (hat : At rows c buf stream) :
    ∀ x ∈ buf, ∃ r, ranges[c]? = some r ∧ InPart r (key x) := by
  obtain ⟨rest, hbuf, -⟩ := hat
  intro x hx
  have hxc : x ∈ rows.getD c [] := by rw [← hbuf]; exact List.mem_append_left _ hx
  have hlt : c < ranges.length := by
    rw [← hk.length_eq]
    by_contra hge
    rw [List.getD_eq_default _ _ (Nat.le_of_not_lt hge)] at hxc
    simp at hxc
  exact ⟨ranges[c], List.getElem?_eq_getElem hlt,
    hk.mem c _ (List.getElem?_eq_getElem hlt) x hxc⟩

/-- Rows still to read are in the current range or a later one. -/
lemma lt_of_at (hk : Keeps key ranges rows) {c : ℕ} {buf stream : List α}
    (hat : At rows c buf stream) (hne : stream ≠ []) : c < ranges.length := by
  by_contra hge
  obtain ⟨rest, hbuf, rfl⟩ := hat
  have hlen : rows.length ≤ c := hk.length_eq ▸ Nat.le_of_not_lt hge
  rw [List.getD_eq_default _ _ hlen, List.append_eq_nil_iff] at hbuf
  rw [hbuf.2, List.drop_eq_nil_of_le (by omega)] at hne
  simp at hne

/-- The stream is at the start of the range `c` with the rows from `c` on to read. -/
lemma at_drop (c : ℕ) : At rows c [] (rows.drop c).flatten := by
  refine ⟨rows.getD c [], rfl, ?_⟩
  rcases Nat.lt_or_ge c rows.length with h | h
  · rw [List.drop_eq_getElem_cons h, List.flatten_cons, List.getD_eq_getElem _ _ h]
  · rw [List.drop_eq_nil_of_le h, List.drop_eq_nil_of_le (by omega), List.getD_eq_default _ _ h]
    rfl

namespace PartSortStream

variable {st : PartSortStream α}

/-- Reading a batch `b` at the range `c`: the batch stays within the rows of `c`, or it
reaches past them and is cut where they end. -/
lemma tryFindNextRange_of_at (hk : Keeps key ranges rows) (hkey : st.key = key)
    (hranges : st.partitionRanges = ranges) {buf b t : List α}
    (hat : At rows st.curPartIdx buf (b ++ t)) (hb : b ≠ []) :
    (st.tryFindNextRange (b.map st.key) = .ok none ∧ At rows st.curPartIdx (buf ++ b) t) ∨
    ∃ rest rb, rb ≠ [] ∧ b = rest ++ rb ∧ buf ++ rest = rows.getD st.curPartIdx [] ∧
      rb ++ t = (rows.drop (st.curPartIdx + 1)).flatten ∧
      st.tryFindNextRange (b.map st.key) = .ok (some rest.length) := by
  have hlt := lt_of_at hk hat (by simp [hb])
  have hr : ranges[st.curPartIdx]? = some ranges[st.curPartIdx] := List.getElem?_eq_getElem hlt
  obtain ⟨rest, hbuf, hstream⟩ := hat
  have hfind := findIdx?_of_append_eq
    (p := fun x => decide (key x ≥ ranges[st.curPartIdx].end) ||
      decide (key x < ranges[st.curPartIdx].start))
    hstream
    (fun x hx => by
      have := hk.mem _ _ hr x (by rw [← hbuf]; exact List.mem_append_right _ hx)
      unfold InPart at this
      simp only [Bool.or_eq_false_iff, decide_eq_false_iff_not]
      omega)
    (fun x hx => by
      have := not_inPart_of_mem_drop hk hr hx
      unfold InPart at this
      simp only [Bool.or_eq_true, decide_eq_true_eq]
      omega)
  have htry : ∀ i, b.findIdx? (fun x => decide (key x ≥ ranges[st.curPartIdx].end) ||
      decide (key x < ranges[st.curPartIdx].start)) = i →
        st.tryFindNextRange (b.map st.key) = .ok i := by
    intro i hi
    unfold tryFindNextRange
    rw [if_neg (by simp [hb]), hranges, hr]
    simp only [hkey, List.findIdx?_map]
    exact congrArg Except.ok hi
  rcases hfind with ⟨hnone, rest', hrest, ht⟩ | ⟨rb, hrb, hb', hlater, hsome⟩
  · exact Or.inl ⟨htry _ hnone, rest', by rw [List.append_assoc, ← hrest, hbuf], ht⟩
  · exact Or.inr ⟨rest, rb, hrb, hb', hbuf, hlater.symm, htry _ hsome⟩

end PartSortStream

/-! ## The stream over ranges the input keeps to -/

/-- What the stream has left to output from the range with the rows `cur` on, the ranges after
it having the rows `later`: the rows of a range `f` gives when the stream leaves it, unless
there are none, and at the end those of the last range, once its last row has been read. -/
def emits (f : List α → List α) : List α → List (List α) → List (List α)
  | cur, [] => if cur = [] then [] else [f cur]
  | cur, next :: later =>
    if (next :: later).flatten = [] then (if cur = [] then [] else [f cur])
    else (if f cur = [] then [] else [f cur]) ++ emits f next later

lemma emits_of_flatten_eq_nil (f : List α → List α) (cur : List α) {later : List (List α)}
    (h : later.flatten = []) : emits f cur later = if cur = [] then [] else [f cur] := by
  cases later with
  | nil => rfl
  | cons next later => rw [emits, if_pos h]

/-- Rows after the range `c` make the stream leave it. -/
lemma emits_drop_of_ne_nil (f : List α → List α) {c : ℕ}
    (h : (rows.drop (c + 1)).flatten ≠ []) :
    emits f (rows.getD c []) (rows.drop (c + 1)) =
      (if f (rows.getD c []) = [] then [] else [f (rows.getD c [])]) ++
        emits f (rows.getD (c + 1) []) (rows.drop (c + 2)) := by
  have hlt : c + 1 < rows.length := by
    by_contra hge
    rw [List.drop_eq_nil_of_le (Nat.le_of_not_lt hge)] at h
    exact h rfl
  rw [List.drop_eq_getElem_cons hlt] at h ⊢
  rw [emits, if_neg h, List.getD_eq_getElem _ _ hlt]

/-- Where `f` gives rows exactly for rows, every range with rows comes out, in order. -/
lemma emits_eq_map_filter {f : List α → List α} (hf : ∀ l, f l = [] ↔ l = []) :
    ∀ (cur : List α) (later : List (List α)),
      emits f cur later = ((cur :: later).filter fun l => !l.isEmpty).map f
  | cur, [] => by by_cases h : cur = [] <;> simp [emits, h]
  | cur, next :: later => by
    by_cases hlater : (next :: later).flatten = []
    · have hnil : ∀ l ∈ next :: later, l = [] := List.flatten_eq_nil_iff.mp hlater
      rw [emits, if_pos hlater, List.filter_cons, List.filter_eq_nil_iff.mpr (by simpa using hnil)]
      by_cases h : cur = [] <;> simp [h]
    · rw [emits, if_neg hlater, emits_eq_map_filter hf next later, List.filter_cons (x := cur)]
      by_cases h : cur = [] <;> simp [h, hf]

/-- Each batch that comes out is that of one range, in the order of the ranges. -/
lemma exists_emits_eq_map (f : List α → List α) :
    ∀ (cur : List α) (later : List (List α)), ∃ idxs : List ℕ, idxs.Pairwise (· < ·) ∧
      (∀ i ∈ idxs, i < later.length + 1) ∧
      emits f cur later = idxs.map fun i => f ((cur :: later).getD i [])
  | cur, [] => by
    by_cases h : cur = []
    · exact ⟨[], by simp, by simp, by simp [emits, h]⟩
    · exact ⟨[0], by simp, by simp, by simp [emits, h]⟩
  | cur, next :: later => by
    by_cases hlater : (next :: later).flatten = []
    · rw [emits, if_pos hlater]
      by_cases h : cur = []
      · exact ⟨[], by simp, by simp, by simp [h]⟩
      · exact ⟨[0], by simp, by simp, by simp [h]⟩
    -- the ranges after `cur` come out as they do from `next` on, one place further
    obtain ⟨idxs, hsorted, hlt, heq⟩ := exists_emits_eq_map f next later
    refine ⟨(if f cur = [] then [] else [0]) ++ idxs.map (· + 1), ?_, ?_, ?_⟩
    · refine List.pairwise_append.mpr ⟨by split <;> simp, List.pairwise_map.mpr ?_, ?_⟩
      · exact hsorted.imp fun h => by omega
      · intro a ha b hb
        split at ha <;> simp at ha hb
        omega
    · intro i hi
      rcases List.mem_append.mp hi with hi | hi
      · split at hi <;> simp at hi
        simp [hi]
      · obtain ⟨j, hj, rfl⟩ := List.mem_map.mp hi
        have := hlt j hj
        simp only [List.length_cons] at this ⊢
        omega
    · rw [emits, if_neg hlater, heq, List.map_append, List.map_map]
      congr 1
      split <;> simp

variable (sorter key ranges rows) (opts : SortOptions) (limit : Option ℕ)

/-- The state of a stream over `ranges` with the limit `limit`, reading the rows `rows` whose
batches `input` it has not read yet: the buffer fits the limit and is in the current range;
while the input lasts the stream is `At` its place in the rows, and once it has ended nothing
is left to cut. -/
structure Inv (st : PartSortStream α) (input : List (List α)) : Prop where
  sorter_eq : st.sorter = sorter
  key_eq : st.key = key
  opts_eq : st.opts = opts
  limit_eq : st.limit = limit
  ranges_eq : st.partitionRanges = ranges
  bufferOk : BufferOk limit st.buffer
  buffer_in : ∀ x ∈ bufferRows st.buffer, ∃ r, ranges[st.curPartIdx]? = some r ∧
    InPart r (key x)
  reading : st.inputComplete = false →
    At rows st.curPartIdx (bufferRows st.buffer) (st.evaluatingBatch.getD [] ++ input.flatten)
  complete : st.inputComplete = true → input = [] ∧ st.evaluatingBatch = none

/-- What the stream has left to output. -/
def expected (st : PartSortStream α) : List (List α) :=
  if st.inputComplete then
    (if bufferRows st.buffer = [] then []
      else [finish sorter key opts limit (bufferRows st.buffer)])
  else emits (finish sorter key opts limit) (rows.getD st.curPartIdx [])
    (rows.drop (st.curPartIdx + 1))

/-- A bound on the turns of the loop the stream has left: one for each batch of the input, two
for each range it has still to leave, one for a batch left to cut, and up to three to end. -/
def turnsLeft (st : PartSortStream α) (input : List (List α)) : ℕ :=
  input.length + 2 * (ranges.length - st.curPartIdx) +
    (if st.evaluatingBatch.getD [] = [] then 0 else 1) +
    (if st.inputComplete then (if bufferRows st.buffer = [] then 1 else 2) else 3)

variable {sorter key ranges rows opts limit}

lemma turnsLeft_pos (st : PartSortStream α) (input : List (List α)) :
    0 < turnsLeft ranges st input := by
  unfold turnsLeft
  split_ifs <;> omega

lemma expected_of_reading (st : PartSortStream α) (h : st.inputComplete = false) :
    expected sorter key rows opts limit st =
      emits (finish sorter key opts limit) (rows.getD st.curPartIdx [])
        (rows.drop (st.curPartIdx + 1)) := by
  simp [expected, h]

lemma Inv.of_at (hk : Keeps key ranges rows) {st : PartSortStream α} {input : List (List α)}
    (hsorter : st.sorter = sorter) (hkey : st.key = key) (hopts : st.opts = opts)
    (hlimit : st.limit = limit) (hranges : st.partitionRanges = ranges)
    (hok : BufferOk limit st.buffer) (hreading : st.inputComplete = false)
    (hat : At rows st.curPartIdx (bufferRows st.buffer)
      (st.evaluatingBatch.getD [] ++ input.flatten)) :
    Inv sorter key ranges rows opts limit st input :=
  ⟨hsorter, hkey, hopts, hlimit, hranges, hok, inPart_of_at hk hat, fun _ => hat,
    fun h => by simp [hreading] at h⟩

lemma Inv.of_complete {st : PartSortStream α} (hsorter : st.sorter = sorter)
    (hkey : st.key = key) (hopts : st.opts = opts) (hlimit : st.limit = limit)
    (hranges : st.partitionRanges = ranges) (hok : BufferOk limit st.buffer)
    (hin : ∀ x ∈ bufferRows st.buffer, ∃ r, ranges[st.curPartIdx]? = some r ∧
      InPart r (key x))
    (hcomplete : st.inputComplete = true) (hnone : st.evaluatingBatch = none) :
    Inv sorter key ranges rows opts limit st [] :=
  ⟨hsorter, hkey, hopts, hlimit, hranges, hok, hin, fun h => by simp [hcomplete] at h,
    fun _ => ⟨rfl, hnone⟩⟩

/-- With nothing left to read, the buffer holds all the rows of the current range, and no
later range has any. -/
lemma at_nil {c : ℕ} {buf : List α} (hat : At rows c buf []) :
    buf = rows.getD c [] ∧ (rows.drop (c + 1)).flatten = [] := by
  obtain ⟨rest, hbuf, hstream⟩ := hat
  obtain ⟨rfl, hlater⟩ := List.append_eq_nil_iff.mp hstream.symm
  exact ⟨by simpa using hbuf, hlater⟩

namespace PartSortStream

/-- Cutting a batch of the input: in the current range it joins the buffer; else the rows of the
current range are sorted and come out, and the stream is in the next range with the rest. -/
lemma splitBatch_spec (hk : Keeps key ranges rows) {st : PartSortStream α} {b : List α}
    {input : List (List α)} (hinv : Inv sorter key ranges rows opts limit st (b :: input))
    (hreading : st.inputComplete = false) (hnone : st.evaluatingBatch = none) :
    ∃ st' out, st.splitBatch b = .ok (st', out) ∧
      Inv sorter key ranges rows opts limit st' input ∧ st'.inputComplete = false ∧
      expected sorter key rows opts limit st =
        out.toList ++ expected sorter key rows opts limit st' ∧
      2 * (ranges.length - st'.curPartIdx) + (if st'.evaluatingBatch.getD [] = [] then 0 else 1) ≤
        2 * (ranges.length - st.curPartIdx) := by
  have hat := hinv.reading hreading
  rw [hnone, Option.getD_none, List.nil_append, List.flatten_cons] at hat
  by_cases hb : b = []
  · subst hb
    refine ⟨st, none, rfl, Inv.of_at hk hinv.sorter_eq hinv.key_eq hinv.opts_eq hinv.limit_eq
      hinv.ranges_eq hinv.bufferOk hreading (by rw [hnone]; exact hat), hreading, rfl,
      by simp [hnone]⟩
  rcases tryFindNextRange_of_at hk hinv.key_eq hinv.ranges_eq hat hb with
    ⟨htry, hat'⟩ | ⟨rest, rb, hrb, rfl, hbuf, hlater, htry⟩
  · -- the batch stays in the current range
    refine ⟨st.pushBuffer b, none, splitBatch_of_none hb htry, Inv.of_at hk hinv.sorter_eq
      hinv.key_eq hinv.opts_eq hinv.limit_eq hinv.ranges_eq (bufferOk_push hinv.bufferOk hb)
      hreading ?_,
      hreading, ?_, by simp [pushBuffer, hnone]⟩
    · simpa [pushBuffer, hnone] using hat'
    · rw [expected_of_reading st hreading, expected_of_reading (st.pushBuffer b) hreading]
      rfl
  · -- the batch is cut where the rows of the current range end: they are sorted and come out
    have hlt : st.curPartIdx < ranges.length := lt_of_at hk hat (by simp [hrb])
    obtain ⟨buf₁, hst₁, hrows₁, hok₁⟩ := exists_pushBuffer_if st rest
    have hat₁ : At rows st.curPartIdx (bufferRows buf₁) (rb ++ input.flatten) :=
      ⟨[], by rw [List.append_nil, hrows₁, hbuf], by rw [List.nil_append, hlater]⟩
    have hsort : (if rest.length ≠ 0 then st.pushBuffer rest else st).sortBuffer =
        (.ok (finish sorter key opts limit (rows.getD st.curPartIdx [])),
          { st with buffer := emptyBuffer st.limit }) := by
      rw [hst₁, sortBuffer_eq]
      · simp only [hinv.sorter_eq, hinv.key_eq, hinv.opts_eq, hinv.limit_eq, hrows₁, hbuf]
      · exact hinv.limit_eq ▸ hok₁ limit hinv.bufferOk
      · simpa only [hinv.ranges_eq, hinv.key_eq] using inPart_of_at hk hat₁
    -- the rest is looked at in the next range, from its start
    set st₂ : PartSortStream α :=
      { st with buffer := emptyBuffer st.limit, curPartIdx := st.curPartIdx + 1 } with hst₂
    have hat₂ : At rows st₂.curPartIdx [] (rb ++ input.flatten) := by
      rw [hlater]
      exact at_drop (st.curPartIdx + 1)
    have hok₂ : BufferOk limit st₂.buffer := by
      rw [hst₂, hinv.limit_eq]
      exact bufferOk_emptyBuffer limit
    have hb' : rest ++ rb ≠ [] := by simpa using hb
    -- what comes out, whichever state the stream is in then
    have hexp : ∀ st' : PartSortStream α, st'.inputComplete = false →
        st'.curPartIdx = st.curPartIdx + 1 →
        expected sorter key rows opts limit st =
          (if (finish sorter key opts limit (rows.getD st.curPartIdx [])).length = 0 then none
            else some (finish sorter key opts limit (rows.getD st.curPartIdx []))).toList ++
            expected sorter key rows opts limit st' := by
      intro st' hreading' hidx
      have hne : (rows.drop (st.curPartIdx + 1)).flatten ≠ [] := by
        rw [← hlater]
        simp [hrb]
      rw [expected_of_reading st hreading, expected_of_reading st' hreading', hidx,
        emits_drop_of_ne_nil _ hne]
      simp only [List.length_eq_zero_iff]
      split <;> rfl
    rcases tryFindNextRange_of_at hk (show st₂.key = key from hinv.key_eq)
      (show st₂.partitionRanges = ranges from hinv.ranges_eq) hat₂ hrb with
      ⟨hnone₂, hat₂'⟩ | ⟨rest₂, rb₂, -, -, -, -, hsome₂⟩
    · -- the rest is in the next range: it joins the emptied buffer
      refine ⟨st₂.pushBuffer rb, _, ?_, Inv.of_at hk hinv.sorter_eq hinv.key_eq hinv.opts_eq
        hinv.limit_eq hinv.ranges_eq (bufferOk_push hok₂ hrb) hreading ?_, hreading,
        hexp _ hreading rfl,
        by simp [pushBuffer, hst₂, hnone]; omega⟩
      · rw [splitBatch_of_cut hb' htry hsort hnone₂]
        simp [hrb, hst₂]
      · simpa [pushBuffer, hst₂, hnone] using hat₂'
    · -- the rest reaches past the next range: it is kept to be cut again
      refine ⟨{ st₂ with evaluatingBatch := some rb }, _, ?_, Inv.of_at hk hinv.sorter_eq
        hinv.key_eq hinv.opts_eq hinv.limit_eq hinv.ranges_eq hok₂ hreading ?_, hreading,
        hexp _ hreading rfl, by simp [hst₂, hrb]; omega⟩
      · rw [splitBatch_of_cut hb' htry hsort hsome₂]
        simp [hst₂]
      · simpa [hst₂] using hat₂

variable (sorter key ranges rows opts limit) in
/-- How a turn of the loop ends, for a stream with `out` left to output within `n` turns: the
stream ends with nothing left, or it outputs a batch, or none, and is left in a state of `Inv`
with the rest to output within fewer turns. -/
def Turn (out : List (List α)) (n : ℕ) : Poll α × PartSortStream α × List (List α) → Prop
  | (.finished, _, _) => out = []
  | (.ready batch, st', input') => Inv sorter key ranges rows opts limit st' input' ∧
    out = batch :: expected sorter key rows opts limit st' ∧ turnsLeft ranges st' input' < n
  | (.again, st', input') => Inv sorter key ranges rows opts limit st' input' ∧
    out = expected sorter key rows opts limit st' ∧ turnsLeft ranges st' input' < n

/-- A batch cut by `split_batch` as the loop returns it. -/
lemma pollSplit_spec (hk : Keeps key ranges rows) {st : PartSortStream α} {b : List α}
    {input : List (List α)} (hinv : Inv sorter key ranges rows opts limit st (b :: input))
    (hreading : st.inputComplete = false) (hnone : st.evaluatingBatch = none) :
    ∃ p, pollSplit input (st.splitBatch b) = .ok p ∧
      Turn sorter key ranges rows opts limit (expected sorter key rows opts limit st)
        (turnsLeft ranges st (b :: input)) p := by
  obtain ⟨st', out, hsplit, hinv', hreading', hexp, hturns⟩ :=
    splitBatch_spec hk hinv hreading hnone
  have hlt : turnsLeft ranges st' input < turnsLeft ranges st (b :: input) := by
    simp only [turnsLeft, hreading, hreading', hnone, List.length_cons]
    simp only [Option.getD_none, if_true, Bool.false_eq_true, if_false]
    omega
  rw [hsplit]
  cases out with
  | none => exact ⟨_, rfl, hinv', hexp, hlt⟩
  | some sorted => exact ⟨_, rfl, hinv', hexp, hlt⟩

/-- The next batch of the input, or its end, which is marked. -/
lemma pollInput_spec (hk : Keeps key ranges rows) {st : PartSortStream α}
    {input : List (List α)} (hinv : Inv sorter key ranges rows opts limit st input)
    (hreading : st.inputComplete = false) (hnone : st.evaluatingBatch = none) :
    ∃ p, st.pollInput input = .ok p ∧
      Turn sorter key ranges rows opts limit (expected sorter key rows opts limit st)
        (turnsLeft ranges st input) p := by
  cases input with
  | nil =>
    have hat := hinv.reading hreading
    rw [hnone, Option.getD_none, List.flatten_nil, List.append_nil] at hat
    obtain ⟨hbuf, hlater⟩ := at_nil hat
    refine ⟨_, rfl, Inv.of_complete hinv.sorter_eq hinv.key_eq hinv.opts_eq hinv.limit_eq
      hinv.ranges_eq hinv.bufferOk hinv.buffer_in rfl hnone, ?_, ?_⟩
    · rw [expected_of_reading st hreading, emits_of_flatten_eq_nil _ _ hlater, ← hbuf]
      simp [expected]
    · have hend : (if bufferRows st.buffer = [] then 1 else 2) < 3 := by split <;> omega
      simpa [turnsLeft, hreading, hnone] using hend
  | cons b input => exact pollSplit_spec hk hinv hreading hnone

/-- One turn of the loop of `poll_next_inner` from a state of `Inv`. -/
lemma pollStep_spec (hk : Keeps key ranges rows) {st : PartSortStream α}
    {input : List (List α)} (hinv : Inv sorter key ranges rows opts limit st input) :
    ∃ p, st.pollStep input = .ok p ∧
      Turn sorter key ranges rows opts limit (expected sorter key rows opts limit st)
        (turnsLeft ranges st input) p := by
  cases hcomplete : st.inputComplete with
  | true =>
    -- the input has ended: the buffer is sorted and output, then the stream ends
    obtain ⟨rfl, hnone⟩ := hinv.complete hcomplete
    by_cases hempty : bufferRows st.buffer = []
    · refine ⟨(.finished, st, []), by
        simp [pollStep, hcomplete, (isEmpty_iff hinv.bufferOk).mpr hempty], ?_⟩
      simp [Turn, expected, hcomplete, hempty]
    have hsort := sortBuffer_eq (hinv.limit_eq ▸ hinv.bufferOk)
      (by simpa only [hinv.ranges_eq, hinv.key_eq] using hinv.buffer_in)
    refine ⟨(.ready (finish st.sorter st.key st.opts st.limit (bufferRows st.buffer)),
        { st with buffer := emptyBuffer st.limit }, []),
      by rw [pollStep, if_pos hcomplete, if_neg (mt (isEmpty_iff hinv.bufferOk).mp hempty), hsort],
      Inv.of_complete hinv.sorter_eq hinv.key_eq hinv.opts_eq hinv.limit_eq hinv.ranges_eq
        (by rw [hinv.limit_eq]; exact bufferOk_emptyBuffer limit) (by simp) hcomplete hnone,
      ?_, ?_⟩
    · simp [expected, hcomplete, hempty, hinv.sorter_eq, hinv.key_eq, hinv.opts_eq,
        hinv.limit_eq]
    · simp [turnsLeft, hcomplete, hempty]
  | false =>
    -- the batch left to cut is taken out of the state: the stream reads the same rows
    have hat := hinv.reading hcomplete
    have hexp : expected sorter key rows opts limit { st with evaluatingBatch := none } =
        expected sorter key rows opts limit st := by
      rw [expected_of_reading { st with evaluatingBatch := none } hcomplete,
        expected_of_reading st hcomplete]
    have hread : st.evaluatingBatch.getD [] = [] →
        ∃ p, ({ st with evaluatingBatch := none } : PartSortStream α).pollInput input = .ok p ∧
          Turn sorter key ranges rows opts limit (expected sorter key rows opts limit st)
            (turnsLeft ranges st input) p := by
      intro hE
      have hinv₁ : Inv sorter key ranges rows opts limit { st with evaluatingBatch := none }
          input :=
        Inv.of_at hk hinv.sorter_eq hinv.key_eq hinv.opts_eq hinv.limit_eq hinv.ranges_eq
          hinv.bufferOk hcomplete
          (by simpa [hE] using hat)
      obtain ⟨p, hp, hturn⟩ := pollInput_spec hk hinv₁ hcomplete rfl
      refine ⟨p, hp, ?_⟩
      rwa [hexp, show turnsLeft ranges { st with evaluatingBatch := none } input =
        turnsLeft ranges st input by simp [turnsLeft, hE]] at hturn
    cases hE : st.evaluatingBatch with
    | none =>
      obtain ⟨p, hp, hturn⟩ := hread (by simp [hE])
      exact ⟨p, by simpa [pollStep, hcomplete, hE] using hp, hturn⟩
    | some batch =>
      by_cases hbatch : batch = []
      · subst hbatch
        obtain ⟨p, hp, hturn⟩ := hread (by simp [hE])
        exact ⟨p, by simpa [pollStep, hcomplete, hE] using hp, hturn⟩
      -- the batch left is cut
      have hinv₁ : Inv sorter key ranges rows opts limit { st with evaluatingBatch := none }
          (batch :: input) :=
        Inv.of_at hk hinv.sorter_eq hinv.key_eq hinv.opts_eq hinv.limit_eq hinv.ranges_eq
          hinv.bufferOk hcomplete
          (by simpa [hE] using hat)
      obtain ⟨p, hp, hturn⟩ := pollSplit_spec hk hinv₁ hcomplete rfl
      refine ⟨p, by simpa [pollStep, hcomplete, hE, hbatch] using hp, ?_⟩
      rwa [hexp, show turnsLeft ranges { st with evaluatingBatch := none } (batch :: input) =
        turnsLeft ranges st input by simp [turnsLeft, hE, hbatch]; omega] at hturn

/-- Polled from a state of `Inv` within enough turns, the stream outputs what it has left.  The
induction is on the turns; `pollStep_spec` gives each one. -/
lemma run_eq (hk : Keeps key ranges rows) (fuel : ℕ) {st : PartSortStream α}
    {input : List (List α)} (hinv : Inv sorter key ranges rows opts limit st input)
    (hfuel : turnsLeft ranges st input ≤ fuel) :
    run fuel st input = some (.ok (expected sorter key rows opts limit st)) := by
  induction fuel generalizing st input with
  | zero => exact absurd hfuel (Nat.not_le_of_lt (turnsLeft_pos st input))
  | succ fuel ih =>
    obtain ⟨⟨p, st', input'⟩, hstep, hturn⟩ := pollStep_spec hk hinv
    cases p with
    | finished => simp only [run, hstep, hturn.symm]
    | ready batch =>
      obtain ⟨hinv', hexp, hlt⟩ := hturn
      rw [run, hstep]
      simp only [ih hinv' (by omega), Option.map_some, Except.map, hexp]
    | again =>
      obtain ⟨hinv', hexp, hlt⟩ := hturn
      rw [run, hstep]
      exact hexp ▸ ih hinv' (by omega)

/-- A new stream over ranges the input keeps to is in a state of `Inv`, at the start of the
first range. -/
lemma inv_new (hk : Keeps key ranges rows) {input : List (List α)}
    (hinput : input.flatten = rows.flatten) :
    Inv sorter key ranges rows opts limit (new sorter key opts limit ranges) input := by
  have hbuffer : (new sorter key opts limit ranges).buffer = emptyBuffer limit := by
    cases limit <;> rfl
  refine Inv.of_at hk rfl rfl rfl rfl rfl (hbuffer ▸ bufferOk_emptyBuffer limit) rfl ?_
  rw [hbuffer, bufferRows_emptyBuffer]
  simpa [new, hinput] using (at_drop 0 : At rows 0 [] (rows.drop 0).flatten)

/-- A new stream outputs, within a turn for each batch, two for each range and three more, the
rows of each range as `finish` gives them when it leaves the range. -/
lemma run_new (hk : Keeps key ranges rows) {input : List (List α)}
    (hinput : input.flatten = rows.flatten) :
    run (input.length + 2 * ranges.length + 3) (new sorter key opts limit ranges) input =
      some (.ok (emits (finish sorter key opts limit) (rows.getD 0 []) (rows.drop 1))) := by
  rw [run_eq hk _ (inv_new hk hinput) (by simp [turnsLeft, new]),
    expected_of_reading _ rfl]
  rfl

end PartSortStream

end Ranges

/-! ## The output over ranges in the order of the sort -/

section Output

variable {sorter : RowSort α} {key : α → ℤ} {opts : SortOptions}
  {ranges : List PartitionRange}
  {rows : List (List α)}

/-- Rows of two ranges that share no value, the first before the second in the order of the
sort, are in the order of the sort. -/
lemma sortLe_of_inPart {r s : PartitionRange} (hapart : ∀ t, InPart r t → ¬ InPart s t)
    (hord : if opts.descending then s.end ≤ r.end else r.start ≤ s.start) {x y : α}
    (hx : InPart r (key x)) (hy : InPart s (key y)) : sortLe key opts x y = true := by
  unfold InPart at hx hy
  rw [sortLe_iff]
  -- else the value of `y` would be in both ranges
  split_ifs at hord ⊢
  · by_contra hlt
    exact hapart (key y) ⟨by omega, by omega⟩ ⟨by omega, by omega⟩
  · by_contra hlt
    exact hapart (key y) ⟨by omega, by omega⟩ ⟨by omega, by omega⟩

/-- Rows read range by range from ranges that share no value keep to them. -/
lemma keeps_of_forall₂ (hapart : ranges.Pairwise fun r s => ∀ t, InPart r t → ¬ InPart s t)
    (hrows : List.Forall₂ (fun r rs => ∀ x ∈ rs, InPart r (key x)) ranges rows) :
    Keeps key ranges rows := by
  have hlen : rows.length = ranges.length := hrows.length_eq.symm
  refine ⟨hlen, ?_, ?_⟩
  · intro i r hr x hx
    obtain ⟨hi, rfl⟩ := List.getElem?_eq_some_iff.mp hr
    rw [List.getD_eq_getElem _ _ (hlen ▸ hi)] at hx
    exact hrows.get hi (hlen ▸ hi) x hx
  · intro i j r s hij hr hs
    obtain ⟨hi, rfl⟩ := List.getElem?_eq_some_iff.mp hr
    obtain ⟨hj, rfl⟩ := List.getElem?_eq_some_iff.mp hs
    exact List.pairwise_iff_getElem.mp hapart i j hi hj hij

/-- The rows of a range come before those of every later range in the order of the sort. -/
lemma pairwise_rows (hk : Keeps key ranges rows)
    (hordered : ranges.Pairwise fun r s =>
      if opts.descending then s.end ≤ r.end else r.start ≤ s.start) :
    rows.Pairwise fun l l' => ∀ x ∈ l, ∀ y ∈ l', sortLe key opts x y = true := by
  rw [List.pairwise_iff_getElem]
  intro i j hi hj hij x hx y hy
  have hi' : i < ranges.length := hk.length_eq ▸ hi
  have hj' : j < ranges.length := hk.length_eq ▸ hj
  have hri := List.getElem?_eq_getElem hi'
  have hrj := List.getElem?_eq_getElem hj'
  exact sortLe_of_inPart (hk.apart i j _ _ hij hri hrj)
    (List.pairwise_iff_getElem.mp hordered i j hi' hj' hij)
    (hk.mem i _ hri x (by rw [List.getD_eq_getElem _ _ hi]; exact hx))
    (hk.mem j _ hrj y (by rw [List.getD_eq_getElem _ _ hj]; exact hy))

/-- Without a limit, every range with rows comes out sorted, in the order of the ranges. -/
lemma emits_sortRows_eq (rows : List (List α)) :
    emits (finish sorter key opts none) (rows.getD 0 []) (rows.drop 1) =
      (rows.filter fun l => !l.isEmpty).map (sorter.sortRows key opts) := by
  have hf : ∀ l, finish sorter key opts none l = [] ↔ l = [] := fun _ =>
    sorter.sortRows_eq_nil_iff
  cases rows with
  | nil => simp [emits]
  | cons cur later => exact emits_eq_map_filter hf cur later

/-- Without a limit, what comes out is the rows in the order of the sort. -/
lemma emits_sortRows_sorted (hk : Keeps key ranges rows)
    (hordered : ranges.Pairwise fun r s =>
      if opts.descending then s.end ≤ r.end else r.start ≤ s.start) :
    (emits (finish sorter key opts none) (rows.getD 0 []) (rows.drop 1)).flatten.Perm
        rows.flatten ∧
      (emits (finish sorter key opts none) (rows.getD 0 []) (rows.drop 1)).flatten.Pairwise
        fun a b => sortLe key opts a b = true := by
  rw [emits_sortRows_eq]
  refine ⟨?_, List.pairwise_flatten.mpr ⟨?_, ?_⟩⟩
  · -- each range is sorted on its own, and the ranges without rows add none
    have hperm := List.Perm.flatMap_left (rows.filter fun l => !l.isEmpty)
      fun l _ => sorter.perm key opts l
    rwa [List.flatMap_def, List.flatMap_id', List.flatten_filter_not_isEmpty] at hperm
  · intro l hl
    obtain ⟨l', -, rfl⟩ := List.mem_map.mp hl
    exact sorter.sorted key opts l'
  · refine List.pairwise_map.mpr (((pairwise_rows hk hordered).sublist
      List.filter_sublist).imp fun h x hx y hy => h x ?_ y ?_)
    · exact sorter.mem_sortRows.mp hx
    · exact sorter.mem_sortRows.mp hy

variable (opts) in
/-- With a limit, each batch that comes out is the first rows in the order of the sort of one
range, in the order of the ranges. -/
lemma exists_emits_take_eq (hk : Keeps key ranges rows) (k : ℕ) :
    ∃ idxs : List ℕ, idxs.Pairwise (· < ·) ∧ (∀ i ∈ idxs, i < ranges.length) ∧
      emits (finish sorter key opts (some k)) (rows.getD 0 []) (rows.drop 1) =
        idxs.map fun i => (sorter.sortRows key opts (rows.getD i [])).take k := by
  cases rows with
  | nil => exact ⟨[], by simp, by simp, by simp [emits]⟩
  | cons cur later =>
    obtain ⟨idxs, hsorted, hlt, heq⟩ :=
      exists_emits_eq_map (finish sorter key opts (some k)) cur later
    refine ⟨idxs, hsorted, fun i hi => ?_, heq⟩
    rw [← hk.length_eq, List.length_cons]
    exact hlt i hi

end Output

/-- A `PartSortStream` over ranges that share no value, ordered in the direction of the sort,
reading their rows range by range in batches cut anywhere: without a limit it outputs all the
rows in the order of the sort, and with the limit `k` each batch it outputs is the first `k`
rows in the order of the sort of one range, the ranges in their order. -/
theorem partSortStream_output (sorter : RowSort α) (key : α → ℤ) (opts : SortOptions)
    (ranges : List PartitionRange) (rows input : List (List α))
    (hapart : ranges.Pairwise fun r s => ∀ t, InPart r t → ¬ InPart s t)
    (hordered : ranges.Pairwise fun r s =>
      if opts.descending then s.end ≤ r.end else r.start ≤ s.start)
    (hrows : List.Forall₂ (fun r rs => ∀ x ∈ rs, InPart r (key x)) ranges rows)
    (hinput : input.flatten = rows.flatten) :
    (∃ out, PartSortStream.run (input.length + 2 * ranges.length + 3)
        (PartSortStream.new sorter key opts none ranges) input = some (.ok out) ∧
      out.flatten.Perm input.flatten ∧
      out.flatten.Pairwise fun a b => sortLe key opts a b = true) ∧
    ∀ k, ∃ idxs : List ℕ, idxs.Pairwise (· < ·) ∧ (∀ i ∈ idxs, i < ranges.length) ∧
      PartSortStream.run (input.length + 2 * ranges.length + 3)
        (PartSortStream.new sorter key opts (some k) ranges) input =
        some (.ok (idxs.map fun i => (sorter.sortRows key opts (rows.getD i [])).take k)) := by
  have hk := keeps_of_forall₂ hapart hrows
  refine ⟨⟨_, PartSortStream.run_new hk hinput, ?_⟩, fun k => ?_⟩
  · rw [hinput]
    exact emits_sortRows_sorted hk hordered
  · obtain ⟨idxs, hsorted, hlt, heq⟩ := exists_emits_take_eq opts hk k
    exact ⟨idxs, hsorted, hlt, heq ▸ PartSortStream.run_new hk hinput⟩

/-- Two ascending ranges read in three batches, the middle one across the boundary. -/
theorem partSortStream_output_acrossBoundary :
    [PartitionRange.mk 0 10, PartitionRange.mk 10 20].Pairwise
        (fun r s => ∀ t, InPart r t → ¬ InPart s t) ∧
      [PartitionRange.mk 0 10, PartitionRange.mk 10 20].Pairwise (fun r s =>
        if (SortOptions.mk false false).descending then s.end ≤ r.end
        else r.start ≤ s.start) ∧
      List.Forall₂ (fun r rs => ∀ x ∈ rs, InPart r (id x))
        [PartitionRange.mk 0 10, PartitionRange.mk 10 20] [[(3 : ℤ), 1], [15, 12]] ∧
      [[(3 : ℤ)], [1, 15], [12]].flatten = [[(3 : ℤ), 1], [15, 12]].flatten ∧
      (∃ out, PartSortStream.run ([[(3 : ℤ)], [1, 15], [12]].length + 2 * 2 + 3)
          (PartSortStream.new .mergeSort id (SortOptions.mk false false) none
            [PartitionRange.mk 0 10, PartitionRange.mk 10 20]) [[3], [1, 15], [12]] =
            some (.ok out) ∧
        out.flatten.Perm [[(3 : ℤ)], [1, 15], [12]].flatten ∧
        out.flatten.Pairwise fun a b => sortLe id (SortOptions.mk false false) a b = true) ∧
      ∀ k, ∃ idxs : List ℕ, idxs.Pairwise (· < ·) ∧ (∀ i ∈ idxs, i < 2) ∧
        PartSortStream.run ([[(3 : ℤ)], [1, 15], [12]].length + 2 * 2 + 3)
          (PartSortStream.new .mergeSort id (SortOptions.mk false false) (some k)
            [PartitionRange.mk 0 10, PartitionRange.mk 10 20]) [[3], [1, 15], [12]] =
          some (.ok (idxs.map fun i =>
            (RowSort.mergeSort.sortRows id (SortOptions.mk false false)
              ([[3, 1], [15, 12]].getD i [])).take k)) := by
  have hapart : [PartitionRange.mk 0 10, PartitionRange.mk 10 20].Pairwise
      (fun r s => ∀ t, InPart r t → ¬ InPart s t) := by
    simp only [List.pairwise_pair, InPart]
    omega
  have hrows : List.Forall₂ (fun r rs => ∀ x ∈ rs, InPart r (id x))
      [PartitionRange.mk 0 10, PartitionRange.mk 10 20] [[(3 : ℤ), 1], [15, 12]] := by
    simp [InPart]
  exact ⟨hapart, by decide, hrows, rfl,
    partSortStream_output .mergeSort id _ _ _ _ hapart (by decide) hrows rfl⟩

end PartSort

end Greptime
