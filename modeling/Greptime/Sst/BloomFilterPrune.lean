import Greptime.Sst.RowSelection

/-!
# Pruning row groups by a bloom filter index, with the index result cache

`ParquetReaderBuilder::prune_row_groups_by_bloom_filter` narrows the `RowGroupSelection` of a
read by the bloom filters of an SST file.  The result of a search is kept in the index result
cache under the predicates and the file, as a `RowGroupSelection` in which a row group that was
searched is present, with the rows it may hold, and a row group that was not is absent.  A read
whose cached result has every row group it needs (`all_required_row_groups_searched`) takes it
as it is; otherwise the row groups it needs that the cache lacks are searched
(`BloomFilterIndexApplier::apply`), the result is added to the cached one (`concat`), and the
union goes back into the cache.

The file and the predicates are abstract: for each column with predicates, the search of its
bloom filter with them (`BloomFilterApplier::search`), a function of the row ranges it is
given, or nothing where the file has no index for the column.  A row group is searched from
its own range of rows in the file, so its result does not depend on the other row groups
searched with it (`apply_eq`).

`searchAll` is the search of every row group of the file without a cache.  A cache is sound
when every entry it holds is an entry of `searchAll` (`CacheSound`).  From a sound cache, a
read leaves its selection intersected with `searchAll`, whether the cache has all it needs, part
of it or nothing, and it puts into the cache a sound value
(`pruneRowGroupsByBloomFilter_spec`); so along any sequence of reads and evictions from an
empty cache every read leaves that intersection and every value put is sound
(`runReads_intersect`).

Errors of reading the index, after which the read keeps its selection, and the metrics are
left out.
-/

namespace Greptime

/-! ## `BloomFilterIndexApplier::apply` -/

namespace BloomFilterIndexApplier

/-- The searches of the columns with predicates, in order: the search of the column's bloom
filter with its predicates, which keeps of the row ranges it is given those the filter may
hold, or `none` where the file has no index for the column. -/
abbrev Searches := List (Option (List (ℕ × ℕ) → List (ℕ × ℕ)))

/-- The first loop of `apply`, from row group `i` at row `start` of the file: each row group to
search, with its range of rows of the file. -/
def inputRanges : List (ℕ × Bool) → ℕ → ℕ → List (ℕ × ℕ × ℕ)
  | [], _, _ => []
  | (len, toSearch) :: rowGroups, i, start =>
    if toSearch then (i, start, start + len) :: inputRanges rowGroups (i + 1) (start + len)
    else inputRanges rowGroups (i + 1) (start + len)

/-- One column of `apply_predicates` on the ranges of one row group: a row group with no rows
left is not searched. -/
def searchColumn (rowGroupOutput : List (ℕ × ℕ)) :
    Option (List (ℕ × ℕ) → List (ℕ × ℕ)) → List (ℕ × ℕ)
  | some search => if rowGroupOutput.isEmpty then rowGroupOutput else search rowGroupOutput
  | none => rowGroupOutput

/-- `apply_predicates`: the column's search over the ranges of each row group. -/
def applyPredicates (search : List (ℕ × ℕ) → List (ℕ × ℕ)) (output : List (ℕ × List (ℕ × ℕ))) :
    List (ℕ × List (ℕ × ℕ)) :=
  output.map fun (i, rowGroupOutput) =>
    (i, if rowGroupOutput.isEmpty then rowGroupOutput else search rowGroupOutput)

/-- `BloomFilterIndexApplier::apply` on row groups given by their number of rows and whether to
search them: each row group searched, with the ranges of its rows that every column's search
keeps, counted from the row group's first row. -/
def apply (searches : Searches) (rowGroups : List (ℕ × Bool)) : List (ℕ × List (ℕ × ℕ)) :=
  let input := inputRanges rowGroups 0 0
  let output := input.map fun (i, range) => (i, [range])
  let output := searches.foldl (fun output column =>
    match column with
    | some search => applyPredicates search output
    | none => output) output
  (output.zip input).map fun ((i, output), (_, start, _)) =>
    (i, output.map fun (s, e) => (s - start, e - start))

/-- What `apply` finds for one row group of rows `start` to `end_` of the file. -/
def searchRowGroup (searches : Searches) (start end_ : ℕ) : List (ℕ × ℕ) :=
  (searches.foldl searchColumn [(start, end_)]).map fun (s, e) => (s - start, e - start)

variable {searches : Searches}

/-- The loop over the columns searches each row group on its own. -/
lemma foldl_applyPredicates (searches : Searches) (output : List (ℕ × List (ℕ × ℕ))) :
    searches.foldl (fun output column =>
      match column with
      | some search => applyPredicates search output
      | none => output) output =
    output.map fun x => (x.1, searches.foldl searchColumn x.2) := by
  induction searches generalizing output with
  | nil => simp
  | cons column searches ih =>
    rw [List.foldl_cons, ih]
    cases column with
    | none => rfl
    | some search => simp [applyPredicates, searchColumn, List.map_map, Function.comp_def]

/-- A row group's result in `apply` is its own search, whichever others are searched. -/
lemma apply_eq (searches : Searches) (rowGroups : List (ℕ × Bool)) :
    apply searches rowGroups = (inputRanges rowGroups 0 0).map fun x =>
      (x.1, searchRowGroup searches x.2.1 x.2.2) := by
  rw [apply]
  dsimp only
  rw [foldl_applyPredicates, List.map_map, List.map_zip_eq_zipWith, List.zipWith_map_left,
    List.zipWith_self]
  rfl

/-- The row groups searched from row group `k` are the row groups to search, in order. -/
lemma inputRanges_flags (flag : ℕ → Bool) (rowCounts : List ℕ) (k start : ℕ) :
    inputRanges ((rowCounts.zipIdx k).map fun p => (p.1, flag p.2)) k start =
      (inputRanges (rowCounts.map fun n => (n, true)) k start).filter fun x => flag x.1 := by
  induction rowCounts generalizing k start with
  | nil => rfl
  | cons n rowCounts ih =>
    rw [List.zipIdx_cons, List.map_cons, List.map_cons, inputRanges, inputRanges, if_pos rfl,
      List.filter_cons, ih]

/-- The row groups searched have increasing ids from `k`. -/
lemma keys_inputRanges_sublist (rowGroups : List (ℕ × Bool)) (k start : ℕ) :
    ((inputRanges rowGroups k start).map Prod.fst).Sublist (List.range' k rowGroups.length) := by
  induction rowGroups generalizing k start with
  | nil => simp [inputRanges]
  | cons rowGroup rowGroups ih =>
    obtain ⟨len, toSearch⟩ := rowGroup
    rw [List.length_cons, List.range'_succ, inputRanges]
    split_ifs
    · exact (ih (k + 1) (start + len)).cons_cons k
    · exact (ih (k + 1) (start + len)).cons k

lemma nodup_keys_inputRanges (rowGroups : List (ℕ × Bool)) (k start : ℕ) :
    ((inputRanges rowGroups k start).map Prod.fst).Nodup :=
  List.Nodup.sublist (keys_inputRanges_sublist rowGroups k start) List.nodup_range'

end BloomFilterIndexApplier

/-! ## The reader -/

namespace BloomFilterPrune

open BloomFilterIndexApplier RowGroupSelection

variable (searches : Searches) (rowCounts : List ℕ) (rowGroupSize : ℕ)

/-- `all_required_row_groups_searched`: every row group the read selects rows of is in the
cached result. -/
def allRequiredRowGroupsSearched (required cached : RowGroupSelection) : Bool :=
  required.iter.all fun (rgId, _) =>
    !required.containsNonEmptyRowGroup rgId || cached.containsRowGroup rgId

/-- `apply_selection_and_update_metrics`: the selection intersected with the result. -/
def applySelectionAndUpdateMetrics (output result : RowGroupSelection) : RowGroupSelection :=
  output.intersect result

/-- `apply_index_result_and_update_cache`: the selection intersected with the result, and the
result, which is put into the cache. -/
def applyIndexResultAndUpdateCache (result output : RowGroupSelection) :
    RowGroupSelection × RowGroupSelection :=
  (applySelectionAndUpdateMetrics output result, result)

/-- The cached result added to the row groups searched (`selection.concat(cached)`); `none` where
`concat` panics. -/
def concatCached (selection : RowGroupSelection) :
    Option RowGroupSelection → Option RowGroupSelection
  | some cached => selection.concat cached
  | none => some selection

/-- The slow path of `prune_row_groups_by_bloom_filter`: the row groups of the file that the read
selects rows of and the cached result lacks are searched (`rgs` pairs the number of rows of
each row group of the file with whether to search it), the cached result is added to what they
give, and the union is applied and put into the cache. -/
def searchFile (cached : Option RowGroupSelection) (output : RowGroupSelection) :
    Option (RowGroupSelection × Option RowGroupSelection) := do
  let rgs := rowCounts.zipIdx.map fun (rg : ℕ × ℕ) =>
    (rg.1, output.containsNonEmptyRowGroup rg.2 &&
      (cached.map fun c => !c.containsRowGroup rg.2).getD true)
  let selection := fromRowRanges (apply searches rgs) rowGroupSize
  let selection ← concatCached selection cached
  let (output, put) := applyIndexResultAndUpdateCache selection output
  pure (output, some put)

/-- `prune_row_groups_by_bloom_filter` with the value the cache holds for the predicates and the
file: the selection the read is left with, and the value it puts into the cache, if any. -/
def pruneRowGroupsByBloomFilter (cached : Option RowGroupSelection) (output : RowGroupSelection) :
    Option (RowGroupSelection × Option RowGroupSelection) :=
  match cached with
  | some result =>
    if allRequiredRowGroupsSearched output result then
      some (applySelectionAndUpdateMetrics output result, none)
    else searchFile searches rowCounts rowGroupSize cached output
  | none => searchFile searches rowCounts rowGroupSize cached output

/-- What happens to the cache's value for the predicates and the file: a read, or an eviction. -/
inductive CacheEvent
  | read (output : RowGroupSelection)
  | evict

/-- Reads one after the other with one cache, from the value it holds: for each read, the
selection it is left with and the value it puts. -/
def runReads : Option RowGroupSelection → List CacheEvent →
    Option (List (RowGroupSelection × Option RowGroupSelection))
  | _, [] => some []
  | _, .evict :: events => runReads none events
  | cache, .read output :: events => do
    let (output, put) ← pruneRowGroupsByBloomFilter searches rowCounts rowGroupSize cache output
    let results ← runReads (put.or cache) events
    pure ((output, put) :: results)

/-- The selections the reads of a sequence start from. -/
def reads : List CacheEvent → List RowGroupSelection
  | [] => []
  | .read output :: events => output :: reads events
  | .evict :: events => reads events

/-! ## What a search without a cache finds -/

/-- The search of every row group of the file, without a cache. -/
def searchAll : RowGroupSelection :=
  fromRowRanges (apply searches (rowCounts.map fun n => (n, true))) rowGroupSize

/-- A cached value is sound when each of its entries is an entry of `searchAll`. -/
def CacheSound (cached : Option RowGroupSelection) : Prop :=
  ∀ result, cached = some result →
    ∀ e ∈ result.selectionInRg, e ∈ (searchAll searches rowCounts rowGroupSize).selectionInRg

/-- The entry of `from_row_ranges` for a row group `apply` searched. -/
def rowGroupEntry (x : ℕ × ℕ × ℕ) : ℕ × RowSelectionWithCount :=
  (x.1, RowSelectionWithCount.ofSelection
    (rowSelectionFromRowRanges (searchRowGroup searches x.2.1 x.2.2) rowGroupSize))

/-- The entries of a search are those of the row groups it searches. -/
lemma mem_fromRowRanges_apply (rgs : List (ℕ × Bool)) {e : ℕ × RowSelectionWithCount} :
    e ∈ (fromRowRanges (apply searches rgs) rowGroupSize).selectionInRg ↔
      ∃ x ∈ inputRanges rgs 0 0, rowGroupEntry searches rowGroupSize x = e := by
  have hnodup := nodup_keys_inputRanges rgs 0 0
  unfold fromRowRanges
  dsimp only
  rw [SortedMap.mem_ofList_iff (by simpa [apply_eq, List.map_map, Function.comp_def] using hnodup),
    apply_eq, List.map_map, List.mem_map]
  rfl

/-- The row groups a read searches: those of the file that it selects rows of and that the
cached result lacks. -/
lemma mem_searchFile_selection (cached : Option RowGroupSelection) (output : RowGroupSelection)
    {e : ℕ × RowSelectionWithCount} :
    e ∈ (fromRowRanges (apply searches (rowCounts.zipIdx.map fun (rg : ℕ × ℕ) =>
      (rg.1, output.containsNonEmptyRowGroup rg.2 &&
        (cached.map fun c => !c.containsRowGroup rg.2).getD true))) rowGroupSize).selectionInRg ↔
      e ∈ (searchAll searches rowCounts rowGroupSize).selectionInRg ∧
        output.containsNonEmptyRowGroup e.1 = true ∧
        (cached.map fun c => !c.containsRowGroup e.1).getD true = true := by
  rw [mem_fromRowRanges_apply, searchAll, mem_fromRowRanges_apply, inputRanges_flags (fun i =>
    output.containsNonEmptyRowGroup i && (cached.map fun c => !c.containsRowGroup i).getD true)]
  simp only [List.mem_filter, Bool.and_eq_true]
  constructor
  · rintro ⟨x, ⟨hx, hflag⟩, rfl⟩
    exact ⟨⟨x, hx, rfl⟩, hflag⟩
  · rintro ⟨⟨x, hx, rfl⟩, hflag⟩
    exact ⟨x, ⟨hx, hflag⟩, rfl⟩

/-- A sound result that has a row group has the entry `searchAll` has for it. -/
lemma mem_of_containsRowGroup {result : RowGroupSelection}
    (hsound : CacheSound searches rowCounts rowGroupSize (some result))
    {e : ℕ × RowSelectionWithCount} (he : e ∈ (searchAll searches rowCounts rowGroupSize).selectionInRg)
    (hcontains : result.containsRowGroup e.1 = true) : e ∈ result.selectionInRg := by
  obtain ⟨x, hx⟩ := containsRowGroup_iff.mp hcontains
  have hxe := (searchAll searches rowCounts rowGroupSize).sorted.eq_of_fst_eq
    (hsound result rfl _ hx) he rfl
  rwa [← hxe]

variable {searches rowCounts rowGroupSize}

/-- A cache hit: a sound result with every row group the read selects rows of. -/
lemma intersect_of_allRequired {output result : RowGroupSelection}
    (hsound : CacheSound searches rowCounts rowGroupSize (some result))
    (hall : allRequiredRowGroupsSearched output result = true) :
    output.intersect result = output.intersect (searchAll searches rowCounts rowGroupSize) := by
  refine intersect_congr (hsound result rfl) fun e he hnonempty => ?_
  apply mem_of_containsRowGroup searches rowCounts rowGroupSize hsound he
  -- the read's row group is one `all_required_row_groups_searched` looked at
  obtain ⟨x, hx, -⟩ := containsNonEmptyRowGroup_iff.mp hnonempty
  have hcheck := List.all_eq_true.mp hall (e.1, x.selection)
    (List.mem_map.mpr ⟨(e.1, x), hx, rfl⟩)
  simpa [hnonempty] using hcheck

/-- A miss or a partial hit: the row groups searched and the sound cached result together have
every row group the read selects rows of, and nothing `searchAll` does not have. -/
lemma searchFile_spec {cached : Option RowGroupSelection} (output : RowGroupSelection)
    (hsound : CacheSound searches rowCounts rowGroupSize cached) :
    ∃ result, searchFile searches rowCounts rowGroupSize cached output =
        some (output.intersect (searchAll searches rowCounts rowGroupSize), some result) ∧
      CacheSound searches rowCounts rowGroupSize (some result) := by
  have hselection := fun e => mem_searchFile_selection searches rowCounts rowGroupSize cached output
    (e := e)
  -- the union put into the cache: what was searched and what was cached
  obtain ⟨result, hresult, hmem⟩ : ∃ result, concatCached (fromRowRanges (apply searches
      (rowCounts.zipIdx.map fun (rg : ℕ × ℕ) => (rg.1, output.containsNonEmptyRowGroup rg.2 &&
        (cached.map fun c => !c.containsRowGroup rg.2).getD true))) rowGroupSize) cached =
        some result ∧
      ∀ e, e ∈ result.selectionInRg ↔ (e ∈ (searchAll searches rowCounts rowGroupSize).selectionInRg ∧
        output.containsNonEmptyRowGroup e.1 = true ∧
        (cached.map fun c => !c.containsRowGroup e.1).getD true = true) ∨
        ∃ c, cached = some c ∧ e ∈ c.selectionInRg := by
    cases cached with
    | none => exact ⟨_, rfl, fun e => by rw [hselection]; simp⟩
    | some c =>
      -- a row group searched is one the cached result lacks
      have hdisj : ∀ e ∈ c.selectionInRg, (fromRowRanges (apply searches
          (rowCounts.zipIdx.map fun (rg : ℕ × ℕ) => (rg.1, output.containsNonEmptyRowGroup rg.2 &&
            (some c |>.map fun c => !c.containsRowGroup rg.2).getD true))) rowGroupSize).containsRowGroup
              e.1 = false := by
        intro e he
        rw [Bool.eq_false_iff]
        intro hsel
        obtain ⟨x, hx⟩ := containsRowGroup_iff.mp hsel
        have hlacks := ((hselection _).mp hx).2.2
        simp [containsRowGroup_iff.mpr ⟨e.2, he⟩] at hlacks
      obtain ⟨u, hu, humem⟩ := concat_spec hdisj
      exact ⟨u, hu, fun e => by rw [humem, hselection]; simp⟩
  have hsub : ∀ e ∈ result.selectionInRg, e ∈ (searchAll searches rowCounts rowGroupSize).selectionInRg := by
    intro e he
    rcases (hmem e).mp he with he | ⟨c, rfl, he⟩
    · exact he.1
    · exact hsound c rfl e he
  have hkept : ∀ e ∈ (searchAll searches rowCounts rowGroupSize).selectionInRg,
      output.containsNonEmptyRowGroup e.1 = true → e ∈ result.selectionInRg := by
    intro e he hnonempty
    by_cases hcached : (cached.map fun c => !c.containsRowGroup e.1).getD true = true
    · exact (hmem e).mpr (.inl ⟨he, hnonempty, hcached⟩)
    · -- the cached result has the row group, with the entry `searchAll` has
      obtain ⟨c, rfl⟩ : ∃ c, cached = some c := by
        cases cached with
        | none => simp at hcached
        | some c => exact ⟨c, rfl⟩
      have hcontains : c.containsRowGroup e.1 = true := by simpa using hcached
      exact (hmem e).mpr (.inr ⟨c, rfl, mem_of_containsRowGroup searches rowCounts rowGroupSize
        hsound he hcontains⟩)
  refine ⟨result, ?_, fun r hr => Option.some.inj hr ▸ hsub⟩
  simp only [searchFile, hresult, Option.bind_eq_bind, Option.bind_some,
    applyIndexResultAndUpdateCache, applySelectionAndUpdateMetrics, intersect_congr hsub hkept]
  rfl

/-- From a sound cache, a read is left with its selection intersected with the search of the
whole file, and puts a sound value into the cache, if any. -/
lemma pruneRowGroupsByBloomFilter_spec {cached : Option RowGroupSelection}
    (output : RowGroupSelection) (hsound : CacheSound searches rowCounts rowGroupSize cached) :
    ∃ put, pruneRowGroupsByBloomFilter searches rowCounts rowGroupSize cached output =
        some (output.intersect (searchAll searches rowCounts rowGroupSize), put) ∧
      CacheSound searches rowCounts rowGroupSize put := by
  cases cached with
  | none =>
    obtain ⟨result, hsearch, hresult⟩ := searchFile_spec output hsound
    exact ⟨some result, hsearch, hresult⟩
  | some result =>
    simp only [pruneRowGroupsByBloomFilter]
    split_ifs with hall
    · refine ⟨none, ?_, fun _ h => by cases h⟩
      rw [applySelectionAndUpdateMetrics, intersect_of_allRequired hsound hall]
    · obtain ⟨result', hsearch, hresult'⟩ := searchFile_spec output hsound
      exact ⟨some result', hsearch, hresult'⟩

/-- Along reads and evictions from a sound cache, each read is left with its selection
intersected with the search of the whole file and puts a sound value, if any. -/
lemma runReads_spec : ∀ (events : List CacheEvent) {cache : Option RowGroupSelection},
    CacheSound searches rowCounts rowGroupSize cache →
    ∃ results, runReads searches rowCounts rowGroupSize cache events = some results ∧
      List.Forall₂ (fun output result =>
        result.1 = output.intersect (searchAll searches rowCounts rowGroupSize) ∧
          CacheSound searches rowCounts rowGroupSize result.2) (reads events) results
  | [], _, _ => ⟨[], rfl, .nil⟩
  | .evict :: events, _, _ => by
    obtain ⟨results, hrun, hresults⟩ := runReads_spec events
      (show CacheSound searches rowCounts rowGroupSize none from fun _ h => by cases h)
    exact ⟨results, hrun, hresults⟩
  | .read output :: events, cache, hsound => by
    obtain ⟨put, hprune, hput⟩ := pruneRowGroupsByBloomFilter_spec output hsound
    -- the cache holds the value put, or keeps its own
    have hnext : CacheSound searches rowCounts rowGroupSize (put.or cache) := by
      cases put with
      | none => exact hsound
      | some v => exact hput
    obtain ⟨results, hrun, hresults⟩ := runReads_spec events hnext
    refine ⟨(output.intersect (searchAll searches rowCounts rowGroupSize), put) :: results, ?_,
      .cons ⟨rfl, hput⟩ hresults⟩
    simp [runReads, hprune, hrun]

/-- For any file, predicates and sequence of reads and evictions sharing one cache that starts
empty, each read is left with its starting selection intersected with the search of every row
group of the file without a cache, and each value a read puts into the cache has only entries
of that search. -/
theorem runReads_intersect (searches : Searches) (rowCounts : List ℕ) (rowGroupSize : ℕ)
    (events : List CacheEvent) :
    ∃ results, runReads searches rowCounts rowGroupSize none events = some results ∧
      List.Forall₂ (fun output result =>
        result.1 = output.intersect (searchAll searches rowCounts rowGroupSize) ∧
          CacheSound searches rowCounts rowGroupSize result.2) (reads events) results :=
  runReads_spec events fun _ h => by cases h

end BloomFilterPrune

end Greptime
