import Greptime.Foundations.Decimal
import Mathlib.Data.List.Sort

/-!
# Creating a bloom filter index (`index::bloom_filter::creator`)

`BloomFilterCreator` cuts the rows pushed to it into segments of `rows_per_segment` rows and
builds a bloom filter of the distinct elements of each segment.  The filters go to a
`FinalizedBloomFilterStorage`, which keeps a segment equal to the one before it only once, and
which spills the filters it holds in memory to an intermediate file when the memory used
passes its thresholds.  `finish` drains the storage and writes the filters one after the
other, with a `BloomFilterMeta` that gives each segment the location of its filter.

`drain` reads the intermediate files back sorted by name.  The files are named by their id
with at least eight digits (`format!("{:08}", file_id)`), so the names sort as the ids only
below `10 ^ 8`: the file of id `10 ^ 8` sorts right after the file of id `10 ^ 7`.  With
more than `10 ^ 8` spills, the filters are written out of the order of their segments
(`bloomFilterCreator_spill_order_diverge`).

The fastbloom filter is a parameter: `bloom count elems` stands for the bytes of the filter
built with the storage's false positive rate and seed for `count` expected items, holding
`elems`.  A `HashSet` of the segment's distinct elements is a list without duplicates here, in
the order the elements came.  The global memory usage is the creator's own counter.  The
encoding of the meta, the codec of the intermediate files and I/O errors are left out.
-/

namespace Greptime

/-- `crate::Bytes`. -/
abbrev Bytes := List UInt8

/-- `MIN_MEMORY_USAGE_THRESHOLD`: below it the storage does not spill. -/
def minMemoryUsageThreshold : ℕ := 1024 * 1024

/-- `FinalizedBloomFilterSegment`: the bytes of a filter and its number of elements. -/
structure FinalizedBloomFilterSegment where
  bloomFilterBytes : List UInt8
  elementCount : ℕ
  deriving DecidableEq

/-- The name of the intermediate file of an id: `format!("{:08}", file_id)`. -/
def intermediateFileName (fileId : ℕ) : String := zeroPad 8 fileId

/-- `FinalizedBloomFilterStorage`, with the intermediate files of its group, each with its name
and the segments written to it. -/
structure FinalizedBloomFilterStorage where
  segmentIndices : List ℕ
  inMemory : List FinalizedBloomFilterSegment
  intermediateFileIdCounter : ℕ
  intermediateFiles : List (String × List FinalizedBloomFilterSegment)
  memoryUsage : ℕ
  globalMemoryUsageThreshold : Option ℕ
  flushedSegCount : ℕ
  deriving DecidableEq

namespace FinalizedBloomFilterStorage

/-- `FinalizedBloomFilterStorage::new`. -/
def new (globalMemoryUsageThreshold : Option ℕ) : FinalizedBloomFilterStorage :=
  ⟨[], [], 0, [], 0, globalMemoryUsageThreshold, 0⟩

/-- `flush_in_memory_to_disk`: the segments in memory go to a new intermediate file. -/
def flushInMemoryToDisk (s : FinalizedBloomFilterStorage) : FinalizedBloomFilterStorage :=
  { s with
    intermediateFileIdCounter := s.intermediateFileIdCounter + 1
    flushedSegCount := s.flushedSegCount + s.inMemory.length
    intermediateFiles :=
      s.intermediateFiles ++ [(intermediateFileName s.intermediateFileIdCounter, s.inMemory)]
    inMemory := [] }

variable (bloom : ℕ → List Bytes → List UInt8)

/-- `add`: the filter of a segment, with the global memory usage before and after.  A filter
equal to the last one in memory is not kept twice: the segment takes its index. -/
def add (s : FinalizedBloomFilterStorage) (global : ℕ) (elems : List Bytes)
    (elementCount : ℕ) : FinalizedBloomFilterStorage × ℕ :=
  let fbf : FinalizedBloomFilterSegment := ⟨bloom elementCount elems, elementCount⟩
  if s.inMemory.getLast? = some fbf then
    ({ s with
      segmentIndices := s.segmentIndices ++ [s.flushedSegCount + s.inMemory.length - 1] }, global)
  else
    let memoryDiff := fbf.bloomFilterBytes.length
    let global := global + memoryDiff
    let s := { s with
      memoryUsage := s.memoryUsage + memoryDiff
      inMemory := s.inMemory ++ [fbf] }
    let s := { s with
      segmentIndices := s.segmentIndices ++ [s.flushedSegCount + s.inMemory.length - 1] }
    if s.memoryUsage < minMemoryUsageThreshold then (s, global)
    else
      match s.globalMemoryUsageThreshold with
      | some threshold =>
        if threshold < global then
          ({ s.flushInMemoryToDisk with memoryUsage := 0 }, global - s.memoryUsage)
        else (s, global)
      | none => (s, global)

/-- `drain`: the segment indices, and the segments: those of the intermediate files, which
`read_all` lists and `drain` sorts by name, then those in memory. -/
def drain (s : FinalizedBloomFilterStorage) : List ℕ × List FinalizedBloomFilterSegment :=
  if s.intermediateFileIdCounter = 0 then (s.segmentIndices, s.inMemory)
  else
    let onDisk := s.intermediateFiles.mergeSort fun x y => decide (x.1 ≤ y.1)
    (s.segmentIndices, onDisk.flatMap Prod.snd ++ s.inMemory)

lemma drain_of_ne_zero (s : FinalizedBloomFilterStorage) (h : s.intermediateFileIdCounter ≠ 0) :
    s.drain = (s.segmentIndices,
      (s.intermediateFiles.mergeSort fun x y => decide (x.1 ≤ y.1)).flatMap Prod.snd ++
        s.inMemory) :=
  if_neg h

end FinalizedBloomFilterStorage

/-- `BloomFilterCreator`; `new` panics unless `rows_per_segment > 0`. -/
structure BloomFilterCreator where
  rowsPerSegment : ℕ
  rowsPerSegment_pos : 0 < rowsPerSegment
  accumulatedRowCount : ℕ
  curSegDistinctElems : List Bytes
  curSegDistinctElemsMemUsage : ℕ
  finalizedBloomFilters : FinalizedBloomFilterStorage
  finalizedRowCount : ℕ
  globalMemoryUsage : ℕ

/-- `BloomFilterLoc`: where a filter is written, and its number of elements. -/
structure BloomFilterLoc where
  offset : ℕ
  size : ℕ
  elementCount : ℕ
  deriving DecidableEq

/-- `BloomFilterMeta`. -/
structure BloomFilterMeta where
  rowsPerSegment : ℕ
  segmentCount : ℕ
  rowCount : ℕ
  bloomFilterSize : ℕ
  segmentLocIndices : List ℕ
  bloomFilterLocs : List BloomFilterLoc
  deriving DecidableEq

/-- The calls that feed a creator rows: `push_row_elems` and `push_n_row_elems`. -/
inductive BloomFilterPush
  | row (elems : List Bytes)
  | nRows (nrows : ℕ) (elems : List Bytes)
  deriving DecidableEq

/-- `HashSet::insert` into the distinct elements of a segment, counting the bytes of an element
that is new. -/
def insertElem (acc : List Bytes × ℕ) (elem : Bytes) : List Bytes × ℕ :=
  if elem ∈ acc.1 then acc else (acc.1 ++ [elem], acc.2 + elem.length)

/-- Inserts the elements of a row, with the bytes of those that were new. -/
def insertElems (set elems : List Bytes) : List Bytes × ℕ :=
  elems.foldl insertElem (set, 0)

/-- Elements that are distinct and new are all inserted. -/
lemma foldl_insertElem_of_nodup (set : List Bytes) (d : ℕ) {elems : List Bytes}
    (hnodup : elems.Nodup) (hnew : ∀ e ∈ elems, e ∉ set) :
    elems.foldl insertElem (set, d) = (set ++ elems, d + (elems.map List.length).sum) := by
  induction elems generalizing set d with
  | nil => simp
  | cons e elems ih =>
    obtain ⟨he, hnodup⟩ := List.nodup_cons.mp hnodup
    have hstep : insertElem (set, d) e = (set ++ [e], d + e.length) := by
      simp [insertElem, hnew e (List.mem_cons_self ..)]
    rw [List.foldl_cons, hstep, ih _ _ hnodup]
    · simp [Nat.add_assoc]
    · intro x hx hmem
      rcases List.mem_append.mp hmem with hmem | hmem
      · exact hnew x (List.mem_cons_of_mem e hx) hmem
      · exact he (List.mem_singleton.mp hmem ▸ hx)

namespace BloomFilterCreator

/-- `BloomFilterCreator::new`. -/
def new (rowsPerSegment : ℕ) (h : 0 < rowsPerSegment) (globalMemoryUsage : ℕ)
    (globalMemoryUsageThreshold : Option ℕ) : BloomFilterCreator :=
  ⟨rowsPerSegment, h, 0, [], 0, .new globalMemoryUsageThreshold, 0, globalMemoryUsage⟩

/-- The elements of a row join the segment's, and the bytes of the new ones are accounted. -/
def addElems (c : BloomFilterCreator) (elems : List Bytes) : BloomFilterCreator :=
  let (set, memDiff) := insertElems c.curSegDistinctElems elems
  { c with
    curSegDistinctElems := set
    curSegDistinctElemsMemUsage := c.curSegDistinctElemsMemUsage + memDiff
    globalMemoryUsage := c.globalMemoryUsage + memDiff }

variable (bloom : ℕ → List Bytes → List UInt8)

/-- `finalize_segment`: the filter of the segment's distinct elements goes to the storage. -/
def finalizeSegment (c : BloomFilterCreator) : BloomFilterCreator :=
  let elemCount := c.curSegDistinctElems.length
  let (storage, global) :=
    c.finalizedBloomFilters.add bloom c.globalMemoryUsage c.curSegDistinctElems elemCount
  { c with
    finalizedBloomFilters := storage
    curSegDistinctElems := []
    globalMemoryUsage := global - c.curSegDistinctElemsMemUsage
    curSegDistinctElemsMemUsage := 0 }

/-- The end of a push: a segment that has all its rows is finalized. -/
def finalizeIfFull (c : BloomFilterCreator) : BloomFilterCreator :=
  if c.accumulatedRowCount % c.rowsPerSegment = 0 then
    { c.finalizeSegment bloom with finalizedRowCount := c.accumulatedRowCount }
  else c

/-- `push_row_elems`. -/
def pushRowElems (c : BloomFilterCreator) (elems : List Bytes) : BloomFilterCreator :=
  ({ c with accumulatedRowCount := c.accumulatedRowCount + 1 }.addElems elems).finalizeIfFull bloom

/-- The loop of `push_n_row_elems`: the rows go to the segments they reach, each of which gets
the elements. -/
def pushNRows (c : BloomFilterCreator) : ℕ → List Bytes → BloomFilterCreator
  | 0, _ => c
  | nrows + 1, elems =>
    let rowsToSegEnd := c.rowsPerSegment - c.accumulatedRowCount % c.rowsPerSegment
    let rowsToPush := min (nrows + 1) rowsToSegEnd
    pushNRows
      (({ c with accumulatedRowCount := c.accumulatedRowCount + rowsToPush }.addElems
        elems).finalizeIfFull bloom) (nrows + 1 - rowsToPush) elems
termination_by nrows => nrows
decreasing_by
  -- a push reaches at least one row into the segment, as `rows_per_segment > 0`
  have := Nat.mod_lt c.accumulatedRowCount c.rowsPerSegment_pos
  omega

/-- `push_n_row_elems`. -/
def pushNRowElems (c : BloomFilterCreator) (nrows : ℕ) (elems : List Bytes) :
    BloomFilterCreator :=
  if nrows = 0 then c
  else if nrows = 1 then c.pushRowElems bloom elems
  else c.pushNRows bloom nrows elems

def push (c : BloomFilterCreator) : BloomFilterPush → BloomFilterCreator
  | .row elems => c.pushRowElems bloom elems
  | .nRows nrows elems => c.pushNRowElems bloom nrows elems

/-- The pushes, in order. -/
def pushAll (c : BloomFilterCreator) (pushes : List BloomFilterPush) : BloomFilterCreator :=
  pushes.foldl (push bloom) c

lemma pushAll_append (c : BloomFilterCreator) (pushes pushes' : List BloomFilterPush) :
    c.pushAll bloom (pushes ++ pushes') = (c.pushAll bloom pushes).pushAll bloom pushes' :=
  List.foldl_append

end BloomFilterCreator

/-- A filter written by `finish`: its bytes follow the others, and its location joins the
meta. -/
def BloomFilterMeta.pushSegment (m : BloomFilterMeta) (segment : FinalizedBloomFilterSegment) :
    BloomFilterMeta :=
  { m with
    bloomFilterLocs := m.bloomFilterLocs ++
      [⟨m.bloomFilterSize, segment.bloomFilterBytes.length, segment.elementCount⟩]
    bloomFilterSize := m.bloomFilterSize + segment.bloomFilterBytes.length }

/-- `finish`: the meta, and the bytes of the filters it locates (the encoded meta and its size
follow them). -/
def BloomFilterCreator.finish (bloom : ℕ → List Bytes → List UInt8) (c : BloomFilterCreator) :
    BloomFilterMeta × List UInt8 :=
  let c := if c.finalizedRowCount < c.accumulatedRowCount then c.finalizeSegment bloom else c
  let (indices, segs) := c.finalizedBloomFilters.drain
  let m : BloomFilterMeta :=
    { rowsPerSegment := c.rowsPerSegment, segmentCount := indices.length,
      rowCount := c.accumulatedRowCount, bloomFilterSize := 0, segmentLocIndices := indices,
      bloomFilterLocs := [] }
  (segs.foldl BloomFilterMeta.pushSegment m,
    segs.flatMap FinalizedBloomFilterSegment.bloomFilterBytes)

/-- What a reader reads at a location (`BloomFilterReader::bloom_filter`): the bytes of the
range, and the element count. -/
def BloomFilterLoc.read (loc : BloomFilterLoc) (bytes : List UInt8) :
    FinalizedBloomFilterSegment :=
  ⟨(bytes.drop loc.offset).take loc.size, loc.elementCount⟩

/-- The filter a reader takes for a segment: the one at the location the segment's index
designates. -/
def BloomFilterMeta.segmentFilter (m : BloomFilterMeta) (bytes : List UInt8) (segment : ℕ) :
    Option FinalizedBloomFilterSegment := do
  let locIndex ← m.segmentLocIndices[segment]?
  let loc ← m.bloomFilterLocs[locIndex]?
  pure (loc.read bytes)

/-! ## Writing the filters -/

/-- The locations of filters written one after the other from `offset`. -/
def consecutiveLocs : ℕ → List FinalizedBloomFilterSegment → List BloomFilterLoc
  | _, [] => []
  | offset, s :: segs =>
    ⟨offset, s.bloomFilterBytes.length, s.elementCount⟩ ::
      consecutiveLocs (offset + s.bloomFilterBytes.length) segs

/-- `finish` gives the filters consecutive locations. -/
lemma foldl_pushSegment (segs : List FinalizedBloomFilterSegment) (m : BloomFilterMeta) :
    segs.foldl BloomFilterMeta.pushSegment m =
      { m with
        bloomFilterLocs := m.bloomFilterLocs ++ consecutiveLocs m.bloomFilterSize segs
        bloomFilterSize :=
          m.bloomFilterSize + (segs.flatMap FinalizedBloomFilterSegment.bloomFilterBytes).length } := by
  induction segs generalizing m with
  | nil => simp [consecutiveLocs]
  | cons s segs ih =>
    rw [List.foldl_cons, ih]
    simp [BloomFilterMeta.pushSegment, consecutiveLocs, Nat.add_assoc]

/-- Each consecutive location reads back the filter written there. -/
lemma read_consecutiveLocs (pre : List UInt8) (segs : List FinalizedBloomFilterSegment) (j : ℕ) :
    (consecutiveLocs pre.length segs)[j]?.map
        (·.read (pre ++ segs.flatMap FinalizedBloomFilterSegment.bloomFilterBytes)) =
      segs[j]? := by
  induction segs generalizing pre j with
  | nil => simp [consecutiveLocs]
  | cons s segs ih =>
    cases j with
    | zero => simp [consecutiveLocs, BloomFilterLoc.read]
    | succ j =>
      have hpre := ih (pre ++ s.bloomFilterBytes) j
      simp only [List.length_append, List.append_assoc] at hpre
      simpa [consecutiveLocs] using hpre

/-- Reading the filters written one after the other: each segment gets the filter at its
index. -/
lemma segmentFilter_foldl_pushSegment (m : BloomFilterMeta) (segs : List FinalizedBloomFilterSegment)
    (hsize : m.bloomFilterSize = 0) (hlocs : m.bloomFilterLocs = []) (i : ℕ) :
    (segs.foldl BloomFilterMeta.pushSegment m).segmentFilter
        (segs.flatMap FinalizedBloomFilterSegment.bloomFilterBytes) i =
      m.segmentLocIndices[i]?.bind fun j => segs[j]? := by
  have hread := read_consecutiveLocs [] segs
  simp only [List.length_nil, List.nil_append] at hread
  simp only [BloomFilterMeta.segmentFilter, foldl_pushSegment, hsize, hlocs, List.nil_append,
    ← hread]
  cases m.segmentLocIndices[i]? with
  | none => rfl
  | some j => cases hloc : (consecutiveLocs 0 segs)[j]? <;> simp [hloc]

/-- The filter `finish` gives a segment is the one `drain` streams at the segment's index. -/
lemma segmentFilter_finish (bloom : ℕ → List Bytes → List UInt8) (c : BloomFilterCreator)
    (i : ℕ) :
    let drained := (if c.finalizedRowCount < c.accumulatedRowCount then c.finalizeSegment bloom
      else c).finalizedBloomFilters.drain
    (c.finish bloom).1.segmentFilter (c.finish bloom).2 i =
      drained.1[i]?.bind fun j => drained.2[j]? :=
  segmentFilter_foldl_pushSegment _ _ rfl rfl i

/-! ## The order of the intermediate files -/

/-- Below `10 ^ 8` the names of the intermediate files sort as their ids. -/
lemma intermediateFileName_lt_intermediateFileName {a b : ℕ} (hb : b < 10 ^ 8) (h : a < b) :
    intermediateFileName a < intermediateFileName b :=
  zeroPad_lt_zeroPad (by norm_num) hb h

lemma intermediateFileName_le_intermediateFileName {a b : ℕ} (hb : b < 10 ^ 8) (h : a ≤ b) :
    intermediateFileName a ≤ intermediateFileName b := by
  rcases h.lt_or_eq with h | rfl
  · exact (intermediateFileName_lt_intermediateFileName hb h).le
  · exact le_rfl

/-- The file of id `10 ^ 8` is the first with a nine-digit name, which sorts among the names
starting with `1`: right after the file of id `10 ^ 7`. -/
lemma intermediateFileName_ten_pow_eight :
    intermediateFileName (10 ^ 7) < intermediateFileName (10 ^ 8) ∧
      intermediateFileName (10 ^ 8) < intermediateFileName (10 ^ 7 + 1) := by
  decide

/-- Sorting `0, …, n` by a key that increases below `n` and puts `n` between `k` and `k + 1`
moves `n` to just after `k`. -/
lemma mergeSort_range_of_key {α β : Type} [LinearOrder β] (key : ℕ → β) (f : ℕ → α) {k n : ℕ}
    (hkn : k < n) (hmono : ∀ a b, a < b → b < n → key a < key b) (hlow : key k < key n)
    (hhigh : key n < key (k + 1)) :
    ((List.range (n + 1)).map fun i => (key i, f i)).mergeSort (fun x y => decide (x.1 ≤ y.1)) =
      (List.range (k + 1)).map (fun i => (key i, f i)) ++
        (key n, f n) :: (List.range' (k + 1) (n - (k + 1))).map fun i => (key i, f i) := by
  have hle : ∀ a b, a ≤ b → b < n → key a ≤ key b := fun a b hab hb =>
    hab.lt_or_eq.elim (fun h => (hmono a b h hb).le) (fun h => h ▸ le_rfl)
  have hsplit : List.range (n + 1) =
      List.range (k + 1) ++ List.range' (k + 1) (n - (k + 1)) ++ [n] := by
    have h := @List.range'_append_1 0 (k + 1) (n - (k + 1))
    rw [Nat.zero_add, show k + 1 + (n - (k + 1)) = n by omega] at h
    rw [List.range_succ, List.range_eq_range', List.range_eq_range', ← h]
  have htrans : ∀ x y z : β × α, decide (x.1 ≤ y.1) = true → decide (y.1 ≤ z.1) = true →
      decide (x.1 ≤ z.1) = true := by
    intro x y z hxy hyz
    simp only [decide_eq_true_eq] at *
    exact hxy.trans hyz
  have htotal : ∀ x y : β × α, (decide (x.1 ≤ y.1) || decide (y.1 ≤ x.1)) = true :=
    fun x y => by simpa using le_total x.1 y.1
  refine @List.Perm.eq_of_pairwise _ (fun x y => decide (x.1 ≤ y.1) = true) _ _ ?_
    (List.pairwise_mergeSort htrans htotal _) ?_ ?_
  -- two ids whose keys are both `≤` each other are the same id
  · have hinj : ∀ a b, a < b → b ≤ n → key a ≠ key b := by
      intro a b hab hb
      rcases hb.lt_or_eq with hb | rfl
      · exact (hmono a b hab hb).ne
      -- `n` shares its key with no other id
      · rcases Nat.lt_or_ge a (k + 1) with hak | hak
        · exact ne_of_lt ((hle a k (by omega) hkn).trans_lt hlow)
        · exact ne_of_gt (hhigh.trans_le (hle (k + 1) a hak hab))
    intro x y hx hy hxy hyx
    have hkey : x.1 = y.1 := le_antisymm (by simpa using hxy) (by simpa using hyx)
    simp only [List.mem_mergeSort, List.mem_map, List.mem_range] at hx
    obtain ⟨a, ha, rfl⟩ := hx
    simp only [List.mem_append, List.mem_cons, List.mem_map, List.mem_range,
      List.mem_range'_1] at hy
    obtain ⟨b, hb, rfl⟩ : ∃ b, b ≤ n ∧ (key b, f b) = y := by
      rcases hy with ⟨b, hb, rfl⟩ | rfl | ⟨b, hb, rfl⟩
      · exact ⟨b, by omega, rfl⟩
      · exact ⟨n, le_rfl, rfl⟩
      · exact ⟨b, by omega, rfl⟩
    rcases Nat.lt_trichotomy a b with hab | rfl | hab
    · exact absurd hkey (hinj a b hab hb)
    · rfl
    · exact absurd hkey.symm (hinj b a hab (by omega))
  -- the ids up to `k`, then `n`, then the others are sorted by key
  · simp only [List.pairwise_append, List.pairwise_cons, List.pairwise_map, List.forall_mem_map,
      List.forall_mem_cons, decide_eq_true_eq]
    refine ⟨List.pairwise_lt_range.imp_of_mem fun ha hb h => ?_,
      ⟨fun b hb => ?_, (List.pairwise_lt_range' 1).imp_of_mem fun ha hb h => ?_⟩,
      fun a ha => ⟨?_, fun b hb => ?_⟩⟩
    · simp only [List.mem_range] at ha hb
      exact hle _ _ h.le (by omega)
    · simp only [List.mem_range'_1] at hb
      exact hhigh.le.trans (hle _ _ hb.1 (by omega))
    · simp only [List.mem_range'_1] at ha hb
      exact hle _ _ h.le (by omega)
    · simp only [List.mem_range] at ha
      exact (hle a k (by omega) hkn).trans hlow.le
    · simp only [List.mem_range, List.mem_range'_1] at ha hb
      exact hle _ _ (by omega) (by omega)
  -- the same files
  · refine (List.mergeSort_perm _ _).trans ?_
    rw [hsplit, List.map_append, List.map_append, List.append_assoc]
    exact List.Perm.append_left _ (List.perm_append_singleton _ _)

/-- The order in which `drain` reads the first `10 ^ 8 + 1` intermediate files: sorted by name,
so that the file of id `10 ^ 8` comes right after the file of id `10 ^ 7`. -/
lemma mergeSort_intermediateFiles {α : Type} (f : ℕ → α) :
    ((List.range (10 ^ 8 + 1)).map fun i => (intermediateFileName i, f i)).mergeSort
        (fun x y => decide (x.1 ≤ y.1)) =
      (List.range (10 ^ 7 + 1)).map (fun i => (intermediateFileName i, f i)) ++
        (intermediateFileName (10 ^ 8), f (10 ^ 8)) ::
          (List.range' (10 ^ 7 + 1) (10 ^ 8 - (10 ^ 7 + 1))).map
            fun i => (intermediateFileName i, f i) :=
  mergeSort_range_of_key intermediateFileName f (by norm_num)
    (fun _ _ h hb => intermediateFileName_lt_intermediateFileName hb h)
    intermediateFileName_ten_pow_eight.1 intermediateFileName_ten_pow_eight.2

/-! ## Spilling every segment -/

section SpillEveryRow

variable (bloom : ℕ → List Bytes → List UInt8) (rowElems : ℕ → List Bytes)

/-- The filter of a segment that is row `i` alone. -/
def rowSegment (i : ℕ) : FinalizedBloomFilterSegment :=
  ⟨bloom (rowElems i).length (rowElems i), (rowElems i).length⟩

/-- A creator with one row per segment and no global memory to spare, after `k` rows each of
whose filters takes at least `MIN_MEMORY_USAGE_THRESHOLD`: every filter went to an
intermediate file of its own. -/
def spilledEveryRow (k : ℕ) : BloomFilterCreator :=
  { rowsPerSegment := 1, rowsPerSegment_pos := Nat.one_pos, accumulatedRowCount := k,
    curSegDistinctElems := [], curSegDistinctElemsMemUsage := 0,
    finalizedBloomFilters :=
      { segmentIndices := List.range k, inMemory := [], intermediateFileIdCounter := k,
        intermediateFiles := (List.range k).map fun i =>
          (intermediateFileName i, [rowSegment bloom rowElems i]),
        memoryUsage := 0, globalMemoryUsageThreshold := some 0, flushedSegCount := k },
    finalizedRowCount := k, globalMemoryUsage := 0 }

variable {bloom rowElems}

/-- The step: the row's filter is added, passes `MIN_MEMORY_USAGE_THRESHOLD` and the global
threshold, and is spilled to the next intermediate file. -/
lemma pushRowElems_spilledEveryRow (hnodup : (rowElems k).Nodup)
    (hsize : minMemoryUsageThreshold ≤ (bloom (rowElems k).length (rowElems k)).length) :
    (spilledEveryRow bloom rowElems k).pushRowElems bloom (rowElems k) =
      spilledEveryRow bloom rowElems (k + 1) := by
  have hinsert : insertElems [] (rowElems k) = (rowElems k, ((rowElems k).map List.length).sum) := by
    simpa [insertElems] using foldl_insertElem_of_nodup [] 0 hnodup (by simp)
  have hspill : ¬ (bloom (rowElems k).length (rowElems k)).length < minMemoryUsageThreshold :=
    Nat.not_lt.mpr hsize
  have hglobal : 0 < ((rowElems k).map List.length).sum +
      (bloom (rowElems k).length (rowElems k)).length :=
    Nat.lt_add_left _ (lt_of_lt_of_le (by decide) hsize)
  simp [spilledEveryRow, rowSegment, BloomFilterCreator.pushRowElems, BloomFilterCreator.addElems, hinsert,
    BloomFilterCreator.finalizeIfFull, BloomFilterCreator.finalizeSegment,
    FinalizedBloomFilterStorage.add, FinalizedBloomFilterStorage.flushInMemoryToDisk, hspill,
    hglobal, List.range_succ, Nat.mod_one]

lemma pushAll_spilledEveryRow (hnodup : ∀ i, (rowElems i).Nodup)
    (hsize : ∀ i, minMemoryUsageThreshold ≤ (bloom (rowElems i).length (rowElems i)).length)
    (k : ℕ) :
    (BloomFilterCreator.new 1 Nat.one_pos 0 (some 0)).pushAll bloom
        ((List.range k).map fun i => .row (rowElems i)) =
      spilledEveryRow bloom rowElems k := by
  induction k with
  | zero => rfl
  | succ k ih =>
    rw [List.range_succ, List.map_append, BloomFilterCreator.pushAll_append, ih]
    exact pushRowElems_spilledEveryRow (hnodup k) (hsize k)

/-- `finish` of the spilled creator has nothing left to finalize, and `drain` reads the filters
of the files sorted by name. -/
lemma finish_spilledEveryRow {k : ℕ} (hk : k ≠ 0) (i : ℕ) :
    ((spilledEveryRow bloom rowElems k).finish bloom).1.segmentFilter
        ((spilledEveryRow bloom rowElems k).finish bloom).2 i =
      (List.range k)[i]?.bind fun j =>
        ((((List.range k).map fun i => (intermediateFileName i, [rowSegment bloom rowElems i])).mergeSort
          fun x y => decide (x.1 ≤ y.1)).flatMap Prod.snd)[j]? := by
  have hfin : ¬ (spilledEveryRow bloom rowElems k).finalizedRowCount <
      (spilledEveryRow bloom rowElems k).accumulatedRowCount := lt_irrefl k
  rw [segmentFilter_finish, if_neg hfin, FinalizedBloomFilterStorage.drain_of_ne_zero _ hk]
  simp only [spilledEveryRow, List.append_nil]

lemma flatMap_rowSegment (l : List ℕ) :
    (l.map fun i => (intermediateFileName i, [rowSegment bloom rowElems i])).flatMap Prod.snd =
      l.map (rowSegment bloom rowElems) := by
  induction l with
  | nil => rfl
  | cons i l ih => simp [ih]

end SpillEveryRow

/-- With one row per segment, a global memory threshold of `0`, and rows whose filters take at
least `MIN_MEMORY_USAGE_THRESHOLD` each, every segment is spilled to an intermediate file of its
own.  After `10 ^ 8 + 1` rows, the index gives segment `10 ^ 7 + 1` the filter of row `10 ^ 8`:
`drain` reads the file named `100000000` right after the file named `10000000`. -/
theorem bloomFilterCreator_spill_order_diverge (bloom : ℕ → List Bytes → List UInt8)
    (rowElems : ℕ → List Bytes) (hnodup : ∀ i, (rowElems i).Nodup)
    (hsize : ∀ i, minMemoryUsageThreshold ≤ (bloom (rowElems i).length (rowElems i)).length) :
    let c := (BloomFilterCreator.new 1 Nat.one_pos 0 (some 0)).pushAll bloom
      ((List.range (10 ^ 8 + 1)).map fun i => .row (rowElems i))
    (c.finish bloom).1.segmentFilter (c.finish bloom).2 (10 ^ 7 + 1) =
      some ⟨bloom (rowElems (10 ^ 8)).length (rowElems (10 ^ 8)), (rowElems (10 ^ 8)).length⟩ := by
  intro c
  have hc : c = spilledEveryRow bloom rowElems (10 ^ 8 + 1) :=
    pushAll_spilledEveryRow hnodup hsize _
  have hidx : (List.range (10 ^ 8 + 1))[10 ^ 7 + 1]? = some (10 ^ 7 + 1) :=
    List.getElem?_range (by norm_num)
  -- the files are read in the order of their names: the file `10 ^ 8` after the file `10 ^ 7`
  rw [hc, finish_spilledEveryRow (Nat.add_one_ne_zero _), hidx, Option.bind_some,
    mergeSort_intermediateFiles, List.flatMap_append, List.flatMap_cons, flatMap_rowSegment,
    flatMap_rowSegment, List.getElem?_append_right (by simp), List.length_map, List.length_range,
    Nat.sub_self]
  rfl

/-- The failing input with filters of `MIN_MEMORY_USAGE_THRESHOLD` zero bytes followed by the
row's elements, each row holding one element of its own length. -/
theorem bloomFilterCreator_spill_order_diverge_megabyteRows :
    let bloom := fun (_ : ℕ) (elems : List Bytes) =>
      List.replicate minMemoryUsageThreshold (0 : UInt8) ++ elems.flatten
    let rowElems := fun i : ℕ => [List.replicate i (0 : UInt8)]
    (∀ i, (rowElems i).Nodup) ∧
      (∀ i, minMemoryUsageThreshold ≤ (bloom (rowElems i).length (rowElems i)).length) ∧
      let c := (BloomFilterCreator.new 1 Nat.one_pos 0 (some 0)).pushAll bloom
        ((List.range (10 ^ 8 + 1)).map fun i => .row (rowElems i))
      (c.finish bloom).1.segmentFilter (c.finish bloom).2 (10 ^ 7 + 1) =
        some ⟨bloom 1 (rowElems (10 ^ 8)), 1⟩ :=
  have hnodup : ∀ i, [List.replicate i (0 : UInt8)].Nodup := fun _ => List.nodup_singleton _
  have hsize : ∀ i, minMemoryUsageThreshold ≤
      (List.replicate minMemoryUsageThreshold (0 : UInt8) ++ [List.replicate i (0 : UInt8)].flatten).length :=
    fun _ => by simp
  ⟨hnodup, hsize, bloomFilterCreator_spill_order_diverge _ _ hnodup hsize⟩

end Greptime
