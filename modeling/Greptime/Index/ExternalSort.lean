import Greptime.Foundations.SortedMerge
import Greptime.Index.Bitmap
import Mathlib.Data.PNat.Basic

/-!
# The external sorter of the inverted index (`index::inverted_index::create::sort`)

`ExternalSorter` takes the values of one column row after row, `n` equal rows at a time
(`push_n`), and gives back the distinct values in order, each with a bitmap of the segments
(`segment_row_count` rows each) that hold it, and a bitmap of the segments that hold a null.
The values are kept in a `BTreeMap` of bitmaps; when the memory used passes its thresholds, the
map is written to an intermediate file and emptied.  `output` merges the map with every
intermediate file, two streams at a time, a merge joining the bitmaps of a value found in both.

Only the ones of a `Bitmap` (`Index.Bitmap`) matter here.  A roaring bitmap holds `u32`s, and
`Bitmap::insert_range` casts the bounds of the range `as u32`: a segment index at or above
`2 ^ 32` lands back at the bottom.  Below that bound, the sorter keeps every row:

* `inv_pushAll`: along every run of `push_n`, whatever the memory thresholds and the memory
  usage the shared counter shows, the map and the files hold at each value exactly the
  segments of its rows (`Inv`);
* `output_spec`: the output is sorted, holds each value pushed once with the segments of its
  rows, and the segments of the nulls, in whatever order the files are listed.

`externalSorter_wraps_segment_index` is the run where the cast loses rows.

The memory a bitmap takes (`Bitmap::memory_usage`, set by roaring's containers) and the length
of a value are parameters; the shared counter of all sorters is read as the value its `load`
shows.  Values are of any linearly ordered type.  The codec of the intermediate files, file ids
and I/O errors are left out.
-/

namespace Greptime

/-- `merge_bitmaps`: the merge of two streams joins the bitmaps of a value found in both. -/
def mergeBitmaps (bitmap1 bitmap2 : Bitmap) : Bitmap := bitmap1.union bitmap2

/-- `SortOutput`. -/
structure SortOutput (K : Type) where
  segmentNullBitmap : Bitmap
  sortedStream : List (K × Bitmap)
  totalRowCount : ℕ

/-- `ExternalSorter`, with the intermediate files its provider holds for its index, oldest
first. -/
structure ExternalSorter (K : Type) where
  segmentNullBitmap : Bitmap
  valuesBuffer : List (K × (Bitmap × ℕ))
  totalRowCount : ℕ
  segmentRowCount : ℕ+
  currentMemoryUsage : ℕ
  currentMemoryUsageThreshold : Option ℕ
  globalMemoryUsageSortLimit : Option ℕ
  intermediateFiles : List (List (K × Bitmap))

/-- A call of `push_n`, with the value the shared memory counter shows its `load`. -/
structure PushN (K : Type) where
  value : Option K
  n : ℕ
  globalMemoryUsage : ℕ

namespace ExternalSorter

variable {K : Type} [LinearOrder K] (memoryUsage : Bitmap → ℕ) (len : K → ℕ)

/-- `ExternalSorter::new`. -/
def new (segmentRowCount : ℕ+) (currentMemoryUsageThreshold globalMemoryUsageSortLimit : Option ℕ) :
    ExternalSorter K :=
  ⟨Bitmap.newBitvec, [], 0, segmentRowCount, 0, currentMemoryUsageThreshold,
    globalMemoryUsageSortLimit, []⟩

/-- The buffer as the stream of its values and bitmaps, as it is dumped and output. -/
def bufferedBitmaps (s : ExternalSorter K) : List (K × Bitmap) :=
  s.valuesBuffer.map fun entry => (entry.1, entry.2.1)

/-- `segment_index`. -/
def segmentIndex (s : ExternalSorter K) (rowIndex : ℕ) : ℕ := rowIndex / s.segmentRowCount

/-- `segment_index_range`: the segments of rows `total_row_count ..= total_row_count + n - 1`. -/
def segmentIndexRange (s : ExternalSorter K) (n : ℕ) : ℕ × ℕ :=
  let rowBegin := s.totalRowCount
  (s.segmentIndex rowBegin, s.segmentIndex (rowBegin + n - 1))

/-- `push_not_null`: the bitmap of the value takes the range, and the growth of its memory
usage is returned (a `usize` subtraction, here truncated). -/
def pushNotNull (value : K) (segmentIndexRange : ℕ × ℕ) (s : ExternalSorter K) :
    ExternalSorter K × ℕ :=
  match SortedMap.get compare value s.valuesBuffer with
  | some (bitmap, memUsage) =>
    let bitmap := bitmap.insertRange segmentIndexRange.1 segmentIndexRange.2
    let newUsage := memoryUsage bitmap + len value
    ({ s with valuesBuffer := SortedMap.insert compare value (bitmap, newUsage) s.valuesBuffer },
      newUsage - memUsage)
  | none =>
    let bitmap := Bitmap.newRoaring.insertRange segmentIndexRange.1 segmentIndexRange.2
    let memUsage := memoryUsage bitmap + len value
    ({ s with valuesBuffer := SortedMap.insert compare value (bitmap, memUsage) s.valuesBuffer },
      memUsage)

/-- `may_dump_buffer`: dump the buffer to a new intermediate file when the global usage is at
its limit and the sorter's own usage is not below its threshold. -/
def mayDumpBuffer (globalMemoryUsage memoryDiff : ℕ) (s : ExternalSorter K) : ExternalSorter K :=
  let memoryUsage := s.currentMemoryUsage + memoryDiff
  let s := { s with currentMemoryUsage := memoryUsage }
  match s.globalMemoryUsageSortLimit with
  | none => s
  | some limit =>
    if globalMemoryUsage < limit then s
    else if s.currentMemoryUsageThreshold.any (fun threshold => decide (memoryUsage < threshold))
    then s
    else
      { s with
        intermediateFiles := s.intermediateFiles ++ [s.bufferedBitmaps]
        valuesBuffer := []
        currentMemoryUsage := 0 }

/-- `push_n`. -/
def pushN (globalMemoryUsage : ℕ) (value : Option K) (n : ℕ) (s : ExternalSorter K) :
    ExternalSorter K :=
  if n = 0 then s
  else
    let segmentIndexRange := s.segmentIndexRange n
    let s := { s with totalRowCount := s.totalRowCount + n }
    match value with
    | some value =>
      let (s, memoryDiff) := pushNotNull memoryUsage len value segmentIndexRange s
      s.mayDumpBuffer globalMemoryUsage memoryDiff
    | none =>
      { s with
        segmentNullBitmap :=
          s.segmentNullBitmap.insertRange segmentIndexRange.1 segmentIndexRange.2 }

/-- The calls of `push_n`, one after the other. -/
def pushAll (pushes : List (PushN K)) (s : ExternalSorter K) : ExternalSorter K :=
  pushes.foldl (fun s push => pushN memoryUsage len push.globalMemoryUsage push.value push.n s) s

/-- `output`: the buffer first, then the intermediate files as the provider's `read_all` lists
them, merged two at a time; the buffer and the null bitmap are taken. -/
def output (readers : List (List (K × Bitmap))) (s : ExternalSorter K) :
    Option (SortOutput K × ExternalSorter K) := do
  let treeNodes := s.bufferedBitmaps :: readers
  let sortedStream ← SortedMerge.mergeQueue mergeBitmaps treeNodes
  pure (⟨s.segmentNullBitmap, sortedStream, s.totalRowCount⟩,
    { s with valuesBuffer := [], segmentNullBitmap := Bitmap.newRoaring })

/-! ## The rows a sorter holds -/

/-- The rows pushed, in push order. -/
def pushedRows (pushes : List (PushN K)) : List (Option K) :=
  pushes.flatMap fun push => List.replicate push.n push.value

/-- The segments of `segmentRowCount` rows that hold a row of `value`. -/
def segmentsOf (segmentRowCount : ℕ) (rows : List (Option K)) (value : Option K) : Finset ℕ :=
  ((Finset.range rows.length).filter fun r => rows[r]? = some value).image (· / segmentRowCount)

/-- The buffer and the intermediate files together. -/
def contents (s : ExternalSorter K) : List (K × Bitmap) :=
  s.intermediateFiles.flatten ++ s.bufferedBitmaps

/-- The sorter holds exactly the rows `rows`: the bitmaps of a value in the buffer and in the
files hold together the segments of its rows, the null bitmap those of the null rows. -/
structure Inv (rows : List (Option K)) (s : ExternalSorter K) : Prop where
  totalRowCount_eq : s.totalRowCount = rows.length
  sorted_buffer : SortedMap.Sorted s.valuesBuffer
  sorted_files : ∀ file ∈ s.intermediateFiles, SortedMap.Sorted file
  null_ones : s.segmentNullBitmap.ones = segmentsOf s.segmentRowCount rows none
  ones_eq : ∀ value, SortedMap.joinAt Bitmap.ones value s.contents =
    segmentsOf s.segmentRowCount rows (some value)
  mem_keys : ∀ value, value ∈ s.contents.map Prod.fst ↔ some value ∈ rows

omit [LinearOrder K] in
lemma length_pushedRows (pushes : List (PushN K)) :
    (pushedRows pushes).length = (pushes.map (·.n)).sum := by
  induction pushes with
  | nil => rfl
  | cons push pushes ih =>
    simp only [pushedRows, List.flatMap_cons, List.length_append, List.length_replicate] at ih ⊢
    simp [ih]

@[simp] lemma segmentsOf_nil (segmentRowCount : ℕ) (value : Option K) :
    segmentsOf segmentRowCount [] value = ∅ := by
  simp [segmentsOf]

/-- The rows `rowBegin ..< rowBegin + n` fill the segments `segment_index_range` names. -/
lemma image_div_Ico {segmentRowCount rowBegin n : ℕ} (hS : 0 < segmentRowCount) (hn : 0 < n) :
    (Finset.Ico rowBegin (rowBegin + n)).image (· / segmentRowCount) =
      Finset.Icc (rowBegin / segmentRowCount) ((rowBegin + n - 1) / segmentRowCount) := by
  ext j
  simp only [Finset.mem_image, Finset.mem_Ico, Finset.mem_Icc]
  constructor
  · rintro ⟨r, ⟨hlo, hhi⟩, rfl⟩
    exact ⟨Nat.div_le_div_right hlo, Nat.div_le_div_right (by omega)⟩
  · rintro ⟨hlo, hhi⟩
    have hj : j * segmentRowCount ≤ rowBegin + n - 1 := (Nat.le_div_iff_mul_le hS).mp hhi
    rcases le_total rowBegin (j * segmentRowCount) with h | h
    · exact ⟨j * segmentRowCount, ⟨h, by omega⟩, Nat.mul_div_cancel j hS⟩
    · exact ⟨rowBegin, ⟨le_refl _, by omega⟩, le_antisymm hlo ((Nat.le_div_iff_mul_le hS).mpr h)⟩

lemma segmentsOf_append_replicate (segmentRowCount : ℕ) (rows : List (Option K)) (n : ℕ)
    (value v : Option K) :
    segmentsOf segmentRowCount (rows ++ List.replicate n value) v =
      segmentsOf segmentRowCount rows v ∪
        if value = v then
          (Finset.Ico rows.length (rows.length + n)).image (· / segmentRowCount)
        else ∅ := by
  have hfilter : (Finset.range (rows ++ List.replicate n value).length).filter
      (fun r => (rows ++ List.replicate n value)[r]? = some v) =
      (Finset.range rows.length).filter (fun r => rows[r]? = some v) ∪
        if value = v then Finset.Ico rows.length (rows.length + n) else ∅ := by
    ext r
    rw [Finset.mem_union, Finset.mem_filter, Finset.mem_filter]
    simp only [Finset.mem_range, List.length_append, List.length_replicate]
    by_cases hr : r < rows.length
    · have hIco : r ∉ (if value = v then Finset.Ico rows.length (rows.length + n) else ∅) := by
        split_ifs <;> simp [hr]
      rw [List.getElem?_append_left hr]
      simp only [hIco, or_false]
      constructor
      · rintro ⟨-, h⟩
        exact ⟨hr, h⟩
      · rintro ⟨-, h⟩
        exact ⟨by omega, h⟩
    · rw [List.getElem?_append_right (by omega), List.getElem?_replicate]
      simp only [hr, false_and, false_or]
      split_ifs with h₁ h₂ h₂ <;> simp [h₂] <;> omega
  rw [segmentsOf, hfilter, Finset.image_union, segmentsOf]
  split_ifs <;> simp

/-! ## What each step does -/

omit [LinearOrder K] in
/-- `may_dump_buffer` keeps the buffer, or moves it to a new intermediate file. -/
lemma mayDumpBuffer_cases (globalMemoryUsage memoryDiff : ℕ) (s : ExternalSorter K) :
    mayDumpBuffer globalMemoryUsage memoryDiff s =
        { s with currentMemoryUsage := s.currentMemoryUsage + memoryDiff } ∨
      mayDumpBuffer globalMemoryUsage memoryDiff s =
        { s with
          intermediateFiles := s.intermediateFiles ++ [s.bufferedBitmaps]
          valuesBuffer := []
          currentMemoryUsage := 0 } := by
  dsimp only [mayDumpBuffer]
  split
  · exact .inl rfl
  · split_ifs
    · exact .inl rfl
    · exact .inl rfl
    · exact .inr rfl

/-- `push_not_null` writes the value's bitmap back into the buffer with the range added; a
value not in the buffer starts from an empty roaring bitmap. -/
lemma pushNotNull_eq (value : K) (segmentIndexRange : ℕ × ℕ) (s : ExternalSorter K) :
    ∃ usage memoryDiff, pushNotNull memoryUsage len value segmentIndexRange s =
      ({ s with
        valuesBuffer := SortedMap.insert compare value
          (((SortedMap.get compare value s.valuesBuffer).elim Bitmap.newRoaring Prod.fst).insertRange
            segmentIndexRange.1 segmentIndexRange.2, usage) s.valuesBuffer }, memoryDiff) := by
  unfold pushNotNull
  cases SortedMap.get compare value s.valuesBuffer with
  | none => exact ⟨_, _, rfl⟩
  | some entry => exact ⟨_, _, rfl⟩

lemma sorted_bufferedBitmaps {s : ExternalSorter K} (h : SortedMap.Sorted s.valuesBuffer) :
    SortedMap.Sorted s.bufferedBitmaps :=
  List.pairwise_map.mpr h

omit [LinearOrder K] in
lemma mem_keys_contents (value : K) (s : ExternalSorter K) :
    value ∈ s.contents.map Prod.fst ↔
      value ∈ s.intermediateFiles.flatten.map Prod.fst ∨ value ∈ s.valuesBuffer.map Prod.fst := by
  simp [contents, bufferedBitmaps, Function.comp_def]

lemma joinAt_contents (value : K) (s : ExternalSorter K) :
    SortedMap.joinAt Bitmap.ones value s.contents =
      SortedMap.joinAt Bitmap.ones value s.intermediateFiles.flatten ∪
        SortedMap.joinAt (fun entry => entry.1.ones) value s.valuesBuffer := by
  simp [contents, bufferedBitmaps, SortedMap.joinAt_map, Function.comp_def]

/-- What the buffer holds at a value is the bitmap `get` finds for it. -/
lemma ones_get {s : ExternalSorter K} (h : SortedMap.Sorted s.valuesBuffer) (value : K) :
    ((SortedMap.get compare value s.valuesBuffer).elim Bitmap.newRoaring Prod.fst).ones =
      SortedMap.joinAt (fun entry => entry.1.ones) value s.valuesBuffer := by
  cases hget : SortedMap.get compare value s.valuesBuffer with
  | none =>
    rw [SortedMap.joinAt_eq_bot (μ := fun entry : Bitmap × ℕ => entry.1.ones)
      (SortedMap.not_mem_keys_of_get_eq_none h hget)]
    rfl
  | some entry =>
    exact (SortedMap.joinAt_of_mem (μ := fun entry : Bitmap × ℕ => entry.1.ones) h
      (SortedMap.mem_of_get_eq_some hget)).symm

/-! ## Runs -/

lemma inv_new (segmentRowCount : ℕ+) (currentMemoryUsageThreshold globalMemoryUsageSortLimit : Option ℕ) :
    Inv [] (new segmentRowCount currentMemoryUsageThreshold globalMemoryUsageSortLimit : ExternalSorter K) where
  totalRowCount_eq := rfl
  sorted_buffer := List.Pairwise.nil
  sorted_files := by simp [new]
  null_ones := by simp [new]
  ones_eq := by simp [new, contents, bufferedBitmaps]
  mem_keys := by simp [new, contents, bufferedBitmaps]

lemma inv_mayDumpBuffer {rows : List (Option K)} {s : ExternalSorter K} (h : Inv rows s)
    (globalMemoryUsage memoryDiff : ℕ) : Inv rows (mayDumpBuffer globalMemoryUsage memoryDiff s) := by
  rcases mayDumpBuffer_cases globalMemoryUsage memoryDiff s with hdump | hdump <;> rw [hdump]
  · exact ⟨h.totalRowCount_eq, h.sorted_buffer, h.sorted_files, h.null_ones, h.ones_eq, h.mem_keys⟩
  · have hcontents : ({ s with
        intermediateFiles := s.intermediateFiles ++ [s.bufferedBitmaps]
        valuesBuffer := []
        currentMemoryUsage := 0 } : ExternalSorter K).contents = s.contents := by
      simp [contents, bufferedBitmaps]
    refine ⟨h.totalRowCount_eq, List.Pairwise.nil, fun file hfile => ?_, h.null_ones,
      hcontents ▸ h.ones_eq, hcontents ▸ h.mem_keys⟩
    rcases List.mem_append.mp hfile with hfile | hfile
    · exact h.sorted_files file hfile
    · rw [List.mem_singleton] at hfile
      exact hfile ▸ sorted_bufferedBitmaps h.sorted_buffer

omit [LinearOrder K] in
lemma segmentRowCount_mayDumpBuffer (globalMemoryUsage memoryDiff : ℕ) (s : ExternalSorter K) :
    (mayDumpBuffer globalMemoryUsage memoryDiff s).segmentRowCount = s.segmentRowCount := by
  rcases mayDumpBuffer_cases globalMemoryUsage memoryDiff s with h | h <;> rw [h]

lemma segmentRowCount_pushN (globalMemoryUsage : ℕ) (value : Option K) (n : ℕ)
    (s : ExternalSorter K) :
    (pushN memoryUsage len globalMemoryUsage value n s).segmentRowCount = s.segmentRowCount := by
  unfold pushN
  split_ifs
  · rfl
  · cases value with
    | none => rfl
    | some v =>
      obtain ⟨usage, memoryDiff, hpush⟩ := pushNotNull_eq memoryUsage len
        v (s.segmentIndexRange n) { s with totalRowCount := s.totalRowCount + n }
      simp only [hpush, segmentRowCount_mayDumpBuffer]

lemma segmentRowCount_pushAll (pushes : List (PushN K)) (s : ExternalSorter K) :
    (pushAll memoryUsage len pushes s).segmentRowCount = s.segmentRowCount := by
  induction pushes generalizing s with
  | nil => rfl
  | cons push pushes ih => exact (ih _).trans (segmentRowCount_pushN memoryUsage len _ _ _ s)

/-- One `push_n` adds its rows to what the sorter holds, as long as their segments stay below
`2 ^ 32`. -/
theorem inv_pushN {rows : List (Option K)} {s : ExternalSorter K} (h : Inv rows s) {n : ℕ}
    (hbound : rows.length + n ≤ 2 ^ 32 * s.segmentRowCount) (globalMemoryUsage : ℕ)
    (value : Option K) :
    Inv (rows ++ List.replicate n value) (pushN memoryUsage len globalMemoryUsage value n s) := by
  by_cases hn : n = 0
  · subst hn
    simpa [pushN] using h
  have hS : 0 < (s.segmentRowCount : ℕ) := s.segmentRowCount.pos
  -- `insert_range` adds the segments of the new rows: the cast to `u32` does not bite
  have hrange : ∀ b : Bitmap,
      (b.insertRange (s.segmentIndexRange n).1 (s.segmentIndexRange n).2).ones =
        b.ones ∪ (Finset.Ico rows.length (rows.length + n)).image (· / s.segmentRowCount) := by
    intro b
    rw [image_div_Ico hS (Nat.pos_of_ne_zero hn)]
    simp only [segmentIndexRange, segmentIndex, h.totalRowCount_eq]
    apply Bitmap.ones_insertRange
    · exact (Nat.div_lt_iff_lt_mul hS).mpr (by omega)
    · exact Nat.div_le_div_right (by omega)
  have hseg := segmentsOf_append_replicate (s.segmentRowCount : ℕ) rows n value
  cases value with
  | none =>
    simp only [pushN, hn, if_false]
    refine ⟨?_, h.sorted_buffer, h.sorted_files, ?_, fun u => ?_, fun u => ?_⟩
    · simp [h.totalRowCount_eq]
    · rw [hrange, h.null_ones, hseg, if_pos rfl]
    · rw [hseg, if_neg (by simp), Finset.union_empty]
      exact h.ones_eq u
    · exact (h.mem_keys u).trans (by simp)
  | some v =>
    obtain ⟨usage, memoryDiff, hpush⟩ := pushNotNull_eq memoryUsage len
      v (s.segmentIndexRange n) { s with totalRowCount := s.totalRowCount + n }
    simp only [pushN, hn, if_false, hpush]
    apply inv_mayDumpBuffer
    have hbitmap := hrange ((SortedMap.get compare v s.valuesBuffer).elim Bitmap.newRoaring Prod.fst)
    rw [ones_get h.sorted_buffer] at hbitmap
    refine ⟨?_, SortedMap.sorted_insert h.sorted_buffer, h.sorted_files, ?_, fun u => ?_,
      fun u => ?_⟩
    · simp [h.totalRowCount_eq]
    · rw [h.null_ones, hseg, if_neg (by simp), Finset.union_empty]
    · rw [joinAt_contents, SortedMap.joinAt_insert h.sorted_buffer, hseg, ← h.ones_eq u,
        joinAt_contents]
      by_cases hvu : v = u
      · subst hvu
        simp only [if_true, hbitmap]
        exact (Finset.union_assoc _ _ _).symm
      · simp [hvu]
    · rw [mem_keys_contents, SortedMap.mem_keys_insert, List.mem_append, ← h.mem_keys u,
        mem_keys_contents, List.mem_replicate]
      simp only [Option.some.injEq, ne_eq, hn, not_false_eq_true, true_and]
      constructor
      · rintro (hu | rfl | hu)
        · exact .inl (.inl hu)
        · exact .inr rfl
        · exact .inl (.inr hu)
      · rintro ((hu | hu) | rfl)
        · exact .inl hu
        · exact .inr (.inr hu)
        · exact .inr (.inl rfl)

/-- Along a run of `push_n`, the sorter holds every row pushed, as long as the segments stay
below `2 ^ 32`: the induction is on the calls, each adding its rows by `inv_pushN`. -/
theorem inv_pushAll (pushes : List (PushN K)) {rows : List (Option K)} {s : ExternalSorter K}
    (h : Inv rows s)
    (hbound : rows.length + (pushedRows pushes).length ≤ 2 ^ 32 * s.segmentRowCount) :
    Inv (rows ++ pushedRows pushes) (pushAll memoryUsage len pushes s) := by
  induction pushes generalizing rows s with
  | nil => simpa [pushAll, pushedRows] using h
  | cons push pushes ih =>
    have hrows : pushedRows (push :: pushes) =
        List.replicate push.n push.value ++ pushedRows pushes := rfl
    rw [hrows, List.length_append, List.length_replicate] at hbound
    have hstep := inv_pushN memoryUsage len (n := push.n) h
      (by omega) push.globalMemoryUsage push.value
    have hrest := ih hstep (by
      rw [segmentRowCount_pushN, List.length_append, List.length_replicate]
      omega)
    rw [hrows, ← List.append_assoc]
    exact hrest

/-! ## The output -/

lemma ones_mergeBitmaps (a b : Bitmap) : (mergeBitmaps a b).ones = a.ones ⊔ b.ones := by
  rw [mergeBitmaps, Bitmap.ones_union, Finset.sup_eq_union]

/-- `output` of a sorter holding `rows`, with the files listed in any order: the values come
out in strictly increasing order, each pushed value once, with the segments of its rows. -/
theorem output_spec {rows : List (Option K)} {s : ExternalSorter K} (h : Inv rows s)
    {readers : List (List (K × Bitmap))} (hreaders : readers.Perm s.intermediateFiles) :
    ∃ out s', output readers s = some (out, s') ∧
      SortedMap.Sorted out.sortedStream ∧
      (∀ entry ∈ out.sortedStream,
        entry.2.ones = segmentsOf s.segmentRowCount rows (some entry.1)) ∧
      (∀ value, value ∈ out.sortedStream.map Prod.fst ↔ some value ∈ rows) ∧
      out.segmentNullBitmap.ones = segmentsOf s.segmentRowCount rows none ∧
      out.totalRowCount = rows.length := by
  obtain ⟨sortedStream, hmerge⟩ := Option.isSome_iff_exists.mp
    (SortedMerge.mergeQueue_isSome (f := mergeBitmaps) (List.cons_ne_nil s.bufferedBitmaps readers))
  -- the streams merged are the buffer and the files, in another order
  have hperm : (s.bufferedBitmaps :: readers).flatten.Perm s.contents := by
    rw [List.flatten_cons, contents]
    exact (List.Perm.append_left _ hreaders.flatten).trans List.perm_append_comm
  have hsorted : SortedMap.Sorted sortedStream := by
    refine SortedMerge.sorted_mergeQueue hmerge fun l hl => ?_
    rcases List.mem_cons.mp hl with rfl | hl
    · exact sorted_bufferedBitmaps h.sorted_buffer
    · exact h.sorted_files l (hreaders.subset hl)
  refine ⟨⟨s.segmentNullBitmap, sortedStream, s.totalRowCount⟩,
    { s with valuesBuffer := [], segmentNullBitmap := Bitmap.newRoaring }, ?_, hsorted,
    fun entry hentry => ?_, fun value => ?_, h.null_ones, h.totalRowCount_eq⟩
  · simp [output, hmerge]
  · rw [← SortedMap.joinAt_of_mem (μ := Bitmap.ones) hsorted hentry,
      SortedMerge.joinAt_mergeQueue ones_mergeBitmaps hmerge, SortedMap.joinAt_perm hperm,
      h.ones_eq]
  · rw [SortedMerge.mem_keys_mergeQueue hmerge, (hperm.map Prod.fst).mem_iff, h.mem_keys]

/-- Every run of `push_n` on a new sorter whose segments stay below `2 ^ 32` is output exactly,
whatever the memory thresholds, the memory usage the shared counter shows at each call and the
order in which the files are listed. -/
theorem output_pushAll (segmentRowCount : ℕ+)
    (currentMemoryUsageThreshold globalMemoryUsageSortLimit : Option ℕ) (pushes : List (PushN K))
    (hbound : (pushes.map (·.n)).sum ≤ 2 ^ 32 * segmentRowCount)
    {readers : List (List (K × Bitmap))}
    (hreaders : readers.Perm (pushAll memoryUsage len pushes
      (new segmentRowCount currentMemoryUsageThreshold globalMemoryUsageSortLimit)).intermediateFiles) :
    ∃ out s', output readers (pushAll memoryUsage len pushes
        (new segmentRowCount currentMemoryUsageThreshold globalMemoryUsageSortLimit)) =
        some (out, s') ∧
      SortedMap.Sorted out.sortedStream ∧
      (∀ entry ∈ out.sortedStream,
        entry.2.ones = segmentsOf segmentRowCount (pushedRows pushes) (some entry.1)) ∧
      (∀ value, value ∈ out.sortedStream.map Prod.fst ↔ some value ∈ pushedRows pushes) ∧
      out.segmentNullBitmap.ones = segmentsOf segmentRowCount (pushedRows pushes) none ∧
      out.totalRowCount = (pushes.map (·.n)).sum := by
  have hinv := inv_pushAll memoryUsage len pushes
    (inv_new segmentRowCount currentMemoryUsageThreshold globalMemoryUsageSortLimit)
    (by simpa [new, length_pushedRows] using hbound)
  have hS : (pushAll memoryUsage len pushes (new segmentRowCount currentMemoryUsageThreshold
      globalMemoryUsageSortLimit)).segmentRowCount = segmentRowCount :=
    segmentRowCount_pushAll memoryUsage len pushes _
  rw [List.nil_append] at hinv
  have hout := output_spec hinv hreaders
  rw [hS, length_pushedRows] at hout
  exact hout

/-! ## Segments at or above `2 ^ 32` -/

/-- With one row a segment, `2 ^ 32 + 1` rows of one value reach segment `2 ^ 32`, which the
cast of `insert_range` takes back to `0`: whatever the memory settings, the output gives the
value segment `0` alone, though its rows fill the segments `0 ..= 2 ^ 32`. -/
theorem externalSorter_wraps_segment_index (value : K)
    (currentMemoryUsageThreshold globalMemoryUsageSortLimit : Option ℕ) (globalMemoryUsage : ℕ) :
    (∃ out s', output (pushAll memoryUsage len [⟨some value, 2 ^ 32 + 1, globalMemoryUsage⟩]
          (new 1 currentMemoryUsageThreshold globalMemoryUsageSortLimit)).intermediateFiles
        (pushAll memoryUsage len [⟨some value, 2 ^ 32 + 1, globalMemoryUsage⟩]
          (new 1 currentMemoryUsageThreshold globalMemoryUsageSortLimit)) = some (out, s') ∧
      out.sortedStream.map (fun entry => (entry.1, entry.2.ones)) = [(value, {0})]) ∧
    segmentsOf 1 (pushedRows [⟨some value, 2 ^ 32 + 1, globalMemoryUsage⟩]) (some value) =
      Finset.range (2 ^ 32 + 1) := by
  constructor
  · set s₀ : ExternalSorter K := new 1 currentMemoryUsageThreshold globalMemoryUsageSortLimit
    obtain ⟨usage, memoryDiff, hpush⟩ := pushNotNull_eq memoryUsage len
      value (s₀.segmentIndexRange (2 ^ 32 + 1))
      { s₀ with totalRowCount := s₀.totalRowCount + (2 ^ 32 + 1) }
    -- the range `0 ..= 2 ^ 32` goes into a roaring bitmap as `0 ..= 0`
    have hbitmap : ((SortedMap.get compare value s₀.valuesBuffer).elim Bitmap.newRoaring
        Prod.fst).insertRange (s₀.segmentIndexRange (2 ^ 32 + 1)).1
          (s₀.segmentIndexRange (2 ^ 32 + 1)).2 = Bitmap.roaring {0} := by
      simp [s₀, new, SortedMap.get, segmentIndexRange, segmentIndex, Bitmap.newRoaring,
        Bitmap.insertRange]
    have hrun : pushAll memoryUsage len [⟨some value, 2 ^ 32 + 1, globalMemoryUsage⟩] s₀ =
        mayDumpBuffer globalMemoryUsage memoryDiff
          { s₀ with
            totalRowCount := s₀.totalRowCount + (2 ^ 32 + 1)
            valuesBuffer := [(value, (Bitmap.roaring {0}, usage))] } := by
      simp only [pushAll, List.foldl_cons, List.foldl_nil, pushN, Nat.add_one_ne_zero, if_false,
        hpush, hbitmap]
      rfl
    rw [hrun]
    rcases mayDumpBuffer_cases globalMemoryUsage memoryDiff
      { s₀ with
        totalRowCount := s₀.totalRowCount + (2 ^ 32 + 1)
        valuesBuffer := [(value, (Bitmap.roaring {0}, usage))] } with hdump | hdump <;>
      rw [hdump] <;>
      simp [output, bufferedBitmaps, s₀, new, SortedMerge.mergeQueue, SortedMerge.mergeSorted]
  · have hrows : pushedRows [⟨some value, 2 ^ 32 + 1, globalMemoryUsage⟩] =
        List.replicate (2 ^ 32 + 1) (some value) := by
      -- `simp` would unfold the replicate of a literal this large
      simp only [pushedRows, List.flatMap_cons, List.flatMap_nil, List.append_nil]
    have hfilter : (Finset.range (2 ^ 32 + 1)).filter
        (fun r => (List.replicate (2 ^ 32 + 1) (some value))[r]? = some (some value)) =
        Finset.range (2 ^ 32 + 1) := by
      apply Finset.filter_true_of_mem
      intro r hr
      rw [List.getElem?_replicate, if_pos (Finset.mem_range.mp hr)]
    rw [hrows, segmentsOf, List.length_replicate, hfilter]
    simp only [Nat.div_one, Finset.image_id']

end ExternalSorter

end Greptime
