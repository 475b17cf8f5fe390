import Greptime.Query.TimeRange
import Mathlib.Data.List.Induction
import Mathlib.Data.List.Chain

/-!
# Sorted runs of a batch (`find_successive_runs`, `find_slice_from_range`)

The windowed sort reads its input batch by batch and cuts every batch into the longest runs
that are sorted in the order of its sort expression (`split_batch_to_sorted_run`).  A run
knows its offset and length in the batch and its first and last values, from which the sort
takes its time range `[min, max + 1)` (`SucRun::get_time_range`).  At the end of a working range
a run is cut again by bisection (`find_slice_from_range`): the rows of the run inside a time
range, which in a sorted run are a slice of it.

The sort compares two values by `cmp_with_opts`, in the direction of the expression, with a
NULL first or last as the options say.  The time index a window sort orders by is never NULL,
so a row's value here is `key a : ℤ`; a run's first and last values are `Option`s as in the
source, `None` only for the empty run of an empty batch.

`findSuccessiveRuns_tiles` says what the runs of any column are, NULLs included: blocks whose
concatenation is the column, each non-empty and in order under `cmp_with_opts`, each ending
where the next value compares above its last, with their own first and last non-null values.
`findSuccessiveRuns_blocks` reads that on the rows of a batch and `splitBatchToSortedRun_spec`
lifts it to the slices of the batch.  `bisect` is the partition point of the column the
bisection of `datafusion` searches; on the sorted column of a run the two agree, and
`findSliceFromRange_of_asc` reads the slice of an ascending run off it.
-/

namespace Greptime

namespace WindowSort

/-- The `SortOptions` of the sort expression. -/
structure SortOptions where
  descending : Bool
  nullsFirst : Bool
  deriving DecidableEq, Repr

/-- `cmp_with_opts`: two values of the sort column, `None` standing for NULL. -/
def cmpWithOpts (a b : Option ℤ) (opt : SortOptions) : Ordering :=
  match a, b with
  | some a, some b => if opt.descending then compare b a else compare a b
  | none, none => .eq
  | none, some _ => if opt.nullsFirst then .lt else .gt
  | some _, none => if opt.nullsFirst then .gt else .lt

/-- `SucRun`: a run of a batch, with the first and last non-null values in it. -/
structure SucRun where
  offset : ℕ
  len : ℕ
  firstVal : Option ℤ
  lastVal : Option ℤ
  deriving DecidableEq, Repr

/-- `SucRun::get_time_range`: `[min, max + 1)` of its first and last values. -/
def SucRun.getTimeRange (run : SucRun) : Option TimeRange :=
  match run.firstVal, run.lastVal with
  | some f, some l => some (TimeRange.new (min f l) (max f l + 1))
  | _, _ => none

/-- The variables of the loop of `find_successive_runs`. -/
structure RunScan where
  runs : List SucRun
  lastValue : Option (Option ℤ)
  iterLen : Option ℕ
  lastOffset : ℕ
  firstVal : Option ℤ
  lastVal : Option ℤ

/-- The variables before the loop. -/
def RunScan.init : RunScan := ⟨[], none, none, 0, none, none⟩

/-- One turn of the loop of `find_successive_runs`, at the value `x.1` of index `x.2`: a value
below the last one (in the sort order) closes the current run. -/
def RunScan.step (opts : SortOptions) (st : RunScan) (x : Option ℤ × ℕ) : RunScan :=
  let st : RunScan := match st.lastValue with
    | some lastValue =>
      if cmpWithOpts lastValue x.1 opts = .gt then
        { st with
          runs := st.runs ++ [⟨st.lastOffset, x.2 - st.lastOffset, st.firstVal, st.lastVal⟩]
          firstVal := none
          lastVal := none
          lastOffset := x.2 }
      else st
    | none => st
  { st with
    lastValue := some x.1
    firstVal := match x.1 with
      | some t => st.firstVal.or (some t)
      | none => st.firstVal
    lastVal := match x.1 with
      | some t => some t
      | none => st.lastVal
    iterLen := some x.2 }

/-- `find_successive_runs`: the longest sorted runs of a column, the last one closed after the
loop. -/
def findSuccessiveRuns (values : List (Option ℤ)) (opts : SortOptions) : List SucRun :=
  let st := values.zipIdx.foldl (RunScan.step opts) RunScan.init
  st.runs ++ [⟨st.lastOffset, (st.iterLen.map fun l => l - st.lastOffset + 1).getD 0,
    st.firstVal, st.lastVal⟩]

/-- `bisect::<SIDE>` of `datafusion` on one column sorted by `opts`: the number of values that
come before `target` in the sort order, strictly (`side = true`) or not.  The source halves the
column; on a sorted column the values before the target are a prefix of it, whose length is the
point that search finds. -/
def bisect (side : Bool) (opts : SortOptions) (values : List ℤ) (target : ℤ) : ℕ :=
  (values.takeWhile fun v =>
    if side then cmpWithOpts (some v) (some target) opts == .lt
    else cmpWithOpts (some v) (some target) opts != .gt).length

/-- `find_slice_from_range`: the offset and length of the values `start ≤ v < end` of a sorted
column. -/
def findSliceFromRange (values : List ℤ) (opts : SortOptions) (range : TimeRange) : ℕ × ℕ :=
  let bounds := if opts.descending then
      (bisect false opts values range.end, bisect false opts values range.start)
    else (bisect true opts values range.start, bisect true opts values range.end)
  (bounds.1, bounds.2 - bounds.1)

/-- Why `split_batch_to_sorted_run` and the stream stop, as `internal_err!` reports it. -/
inductive StreamError
  /-- "Found NULL in time index column" -/
  | nullInTimeIndex
  /-- "No working range found" -/
  | noWorkingRange
  /-- "Current batch have data on the right side of working range, something is very wrong" -/
  | rightOfWorkingRange
  /-- "Current batch have data on the left side of working range, something is very wrong" -/
  | leftOfWorkingRange
  /-- "Starting a merge sort when in_progress is not empty" -/
  | mergeWithInProgress
  /-- "Invalid run offset and length" -/
  | invalidRun
  deriving DecidableEq, Repr

section Runs

variable {α : Type} (key : α → ℤ) (opts : SortOptions)

/-- `split_batch_to_sorted_run`: the runs of a batch with their rows, the batch itself when it
is one run. -/
def splitBatchToSortedRun (batch : List α) : Except StreamError (List (List α × SucRun)) :=
  match findSuccessiveRuns (batch.map fun a => some (key a)) opts with
  | [run] =>
    if run.offset = 0 ∧ run.len = batch.length then .ok [(batch, run)] else .error .invalidRun
  | runs => runs.mapM fun run =>
    if run.offset + run.len > batch.length then .error .invalidRun
    else .ok ((batch.drop run.offset).take run.len, run)

/-- Two rows in the order of the sort: the first does not compare above the second. -/
def sortLe (a b : α) : Bool := cmpWithOpts (some (key a)) (some (key b)) opts != .gt

/-- In either direction the order of the sort is a total preorder on the rows, by their time
index. -/
lemma sortLe_iff {a b : α} :
    sortLe key opts a b = true ↔ if opts.descending then key b ≤ key a else key a ≤ key b := by
  unfold sortLe cmpWithOpts
  split_ifs <;> simp [compare_gt_iff_gt]

lemma sortLe_trans {a b c : α} (hab : sortLe key opts a b = true) (hbc : sortLe key opts b c = true) :
    sortLe key opts a c = true := by
  rw [sortLe_iff] at hab hbc ⊢
  split_ifs at hab hbc ⊢ <;> omega

lemma sortLe_total (a b : α) : (sortLe key opts a b || sortLe key opts b a) = true := by
  rw [Bool.or_eq_true, sortLe_iff, sortLe_iff]
  split_ifs <;> omega

/-- The runs of consecutive blocks of rows, the first at `offset`. -/
def runsOfBlocks : ℕ → List (List α) → List SucRun
  | _, [] => []
  | offset, b :: bs =>
    ⟨offset, b.length, b.head?.map key, b.getLast?.map key⟩ :: runsOfBlocks (offset + b.length) bs

lemma runsOfBlocks_append_singleton (offset : ℕ) (bs : List (List α)) (b : List α) :
    runsOfBlocks key (offset) (bs ++ [b]) =
      runsOfBlocks key offset bs ++ [⟨offset + bs.flatten.length, b.length, b.head?.map key,
        b.getLast?.map key⟩] := by
  induction bs generalizing offset with
  | nil => simp [runsOfBlocks]
  | cons b' bs ih =>
    simp only [List.cons_append, runsOfBlocks, ih, List.flatten_cons, List.length_append,
      List.cons.injEq, true_and]
    congr 3
    omega

/-- The runs of consecutive blocks of a column, the first at `offset`, each with its first and
last non-null value. -/
def runsOfValueBlocks : ℕ → List (List (Option ℤ)) → List SucRun
  | _, [] => []
  | offset, b :: bs =>
    ⟨offset, b.length, (b.filterMap id).head?, (b.filterMap id).getLast?⟩ ::
      runsOfValueBlocks (offset + b.length) bs

lemma runsOfValueBlocks_append_singleton (offset : ℕ) (bs : List (List (Option ℤ)))
    (b : List (Option ℤ)) :
    runsOfValueBlocks offset (bs ++ [b]) =
      runsOfValueBlocks offset bs ++ [⟨offset + bs.flatten.length, b.length,
        (b.filterMap id).head?, (b.filterMap id).getLast?⟩] := by
  induction bs generalizing offset with
  | nil => simp [runsOfValueBlocks]
  | cons b' bs ih =>
    simp only [List.cons_append, runsOfValueBlocks, ih, List.flatten_cons, List.length_append,
      List.cons.injEq, true_and]
    congr 3
    omega

/-- Two consecutive blocks of a column meet where the value goes down in the order of `opts`. -/
def Breaks (b b' : List (Option ℤ)) : Prop :=
  ∀ x ∈ b.getLast?, ∀ y ∈ b'.head?, cmpWithOpts x y opts = .gt

/-- What the loop of `find_successive_runs` has seen of a non-empty column: closed blocks and
the current one, each in order, consecutive blocks meeting where the value goes down.  The
induction adds one value at the end of the column. -/
lemma foldl_runScan (values : List (Option ℤ)) (hne : values ≠ []) :
    ∃ blocks cur, (blocks ++ [cur]).flatten = values ∧
      (∀ b ∈ blocks ++ [cur], b ≠ [] ∧ b.IsChain fun x y => cmpWithOpts x y opts ≠ .gt) ∧
      (blocks ++ [cur]).IsChain (Breaks opts) ∧
      let st := values.zipIdx.foldl (RunScan.step opts) RunScan.init
      st.runs = runsOfValueBlocks 0 blocks ∧ st.lastOffset = blocks.flatten.length ∧
      st.firstVal = (cur.filterMap id).head? ∧ st.lastVal = (cur.filterMap id).getLast? ∧
      st.lastValue = cur.getLast? ∧ st.iterLen = some (values.length - 1) := by
  induction values using List.reverseRecOn with
  | nil => exact absurd rfl hne
  | append_singleton values v ih =>
    by_cases hvalues : values = []
    · subst hvalues
      refine ⟨[], [v], by simp, by simp, by simp, ?_⟩
      cases v <;> simp [RunScan.step, RunScan.init, runsOfValueBlocks]
    obtain ⟨blocks, cur, hflat, hblocks, hbreaks, hruns, hoff, hfirst, hlast, hlv, hlen⟩ :=
      ih hvalues
    have hcur := hblocks cur (List.mem_append_right _ List.mem_cons_self)
    have hlenvalues : values.length = blocks.flatten.length + cur.length := by
      rw [← hflat, List.flatten_append, List.length_append, List.flatten_singleton]
    obtain ⟨l, hl⟩ : ∃ l, cur.getLast? = some l := by
      cases h : cur.getLast? with
      | none => exact absurd (List.getLast?_eq_none_iff.mp h) hcur.1
      | some l => exact ⟨l, rfl⟩
    rw [List.zipIdx_append, List.foldl_append, List.zipIdx_singleton, List.foldl_cons,
      List.foldl_nil]
    by_cases hgt : cmpWithOpts l v opts = .gt
    · -- a value below the last one: the current block is closed and `v` starts a new one
      refine ⟨blocks ++ [cur], [v], by simp [← hflat], ?_, ?_, ?_⟩
      · intro b hb
        rcases List.mem_append.mp hb with hb | hb
        · exact hblocks b hb
        · rw [List.mem_singleton.mp hb]
          exact ⟨List.cons_ne_nil _ _, List.isChain_singleton _⟩
      · refine List.isChain_append.mpr ⟨hbreaks, List.isChain_singleton _, ?_⟩
        intro x hx y hy
        simp only [List.getLast?_append, List.getLast?_singleton, Option.some_or,
          Option.mem_def, Option.some.injEq] at hx
        simp only [List.head?_cons, Option.mem_def, Option.some.injEq] at hy
        intro z hz w hw
        rw [← hx, Option.mem_def, hl, Option.some.injEq] at hz
        rw [← hy, List.head?_cons, Option.mem_def, Option.some.injEq] at hw
        rw [← hz, ← hw]
        exact hgt
      · cases v <;>
          simp [RunScan.step, hlv, hl, hgt, hruns, hoff, hfirst, hlast,
            runsOfValueBlocks_append_singleton, hlenvalues]
    · -- the current block goes on with `v`
      refine ⟨blocks, cur ++ [v], by simp [← hflat], ?_, ?_, ?_⟩
      · intro b hb
        rcases List.mem_append.mp hb with hb | hb
        · exact hblocks b (List.mem_append_left _ hb)
        · rw [List.mem_singleton.mp hb]
          refine ⟨by simp, hcur.2.append (List.isChain_singleton _) fun x hx y hy => ?_⟩
          rw [hl, Option.mem_def, Option.some.injEq] at hx
          simp only [List.head?_cons, Option.mem_def, Option.some.injEq] at hy
          rw [← hx, ← hy]
          exact hgt
      · -- the block keeps its head, so it meets the block before it as it did
        obtain ⟨hb, -, hjoin⟩ := List.isChain_append.mp hbreaks
        refine List.isChain_append.mpr ⟨hb, List.isChain_singleton _, fun x hx y hy => ?_⟩
        obtain ⟨c, cs, rfl⟩ := List.exists_cons_of_ne_nil hcur.1
        simp only [List.head?_cons, Option.mem_def, Option.some.injEq] at hy
        subst hy
        intro z hz w hw
        exact hjoin x hx (c :: cs) rfl z hz w (by simpa using hw)
      · obtain ⟨c, cs, rfl⟩ := List.exists_cons_of_ne_nil hcur.1
        cases v <;>
          simp [RunScan.step, hlv, hl, hgt, hruns, hoff, hfirst, hlast, hlenvalues,
            List.filterMap_append, List.head?_append, List.getLast?_append, List.getLast?_cons]

/-- The runs of a non-empty column are those of blocks whose concatenation is the column, each
non-empty and in order, consecutive blocks meeting where the value goes down. -/
lemma findSuccessiveRuns_eq_blocks (values : List (Option ℤ)) (hne : values ≠ []) :
    ∃ blocks, blocks.flatten = values ∧
      (∀ b ∈ blocks, b ≠ [] ∧ b.IsChain fun x y => cmpWithOpts x y opts ≠ .gt) ∧
      blocks.IsChain (Breaks opts) ∧
      findSuccessiveRuns values opts = runsOfValueBlocks 0 blocks := by
  obtain ⟨blocks, cur, hflat, hblocks, hbreaks, hruns, hoff, hfirst, hlast, -, hlen⟩ :=
    foldl_runScan opts values hne
  have hcur := hblocks cur (List.mem_append_right _ List.mem_cons_self)
  have hlenvalues : values.length = blocks.flatten.length + cur.length := by
    rw [← hflat, List.flatten_append, List.length_append, List.flatten_singleton]
  have hcl : cur.length ≠ 0 := fun h => hcur.1 (List.eq_nil_of_length_eq_zero h)
  refine ⟨blocks ++ [cur], hflat, hblocks, hbreaks, ?_⟩
  simp only [findSuccessiveRuns, hruns, hoff, hfirst, hlast, hlen, Option.map_some,
    Option.getD_some, runsOfValueBlocks_append_singleton, Nat.zero_add]
  congr 3
  omega

@[simp]
lemma length_runsOfValueBlocks (offset : ℕ) (blocks : List (List (Option ℤ))) :
    (runsOfValueBlocks offset blocks).length = blocks.length := by
  induction blocks generalizing offset with
  | nil => rfl
  | cons b bs ih => simp [runsOfValueBlocks, ih]

lemma getElem?_runsOfValueBlocks (offset : ℕ) (blocks : List (List (Option ℤ))) (i : ℕ) :
    (runsOfValueBlocks offset blocks)[i]? = blocks[i]?.map fun b =>
      ⟨offset + (blocks.take i).flatten.length, b.length, (b.filterMap id).head?,
        (b.filterMap id).getLast?⟩ := by
  induction blocks generalizing offset i with
  | nil => simp [runsOfValueBlocks]
  | cons b bs ih =>
    cases i with
    | zero => simp [runsOfValueBlocks]
    | succ i =>
      simp only [runsOfValueBlocks, List.getElem?_cons_succ, ih, List.take_succ_cons,
        List.flatten_cons, List.length_append]
      congr 2
      funext b'
      congr 1
      omega

/-- `find_successive_runs` cuts a column into runs that follow each other from offset `0`, each
the longest in order under `cmp_with_opts` (a run ends where the next value compares above it),
with its first and last non-null values; an empty column is one empty run. -/
theorem findSuccessiveRuns_tiles (values : List (Option ℤ)) (opts : SortOptions) :
    (values = [] → findSuccessiveRuns values opts = [⟨0, 0, none, none⟩]) ∧
      (values ≠ [] → ∃ blocks : List (List (Option ℤ)), blocks.flatten = values ∧
        (∀ b ∈ blocks, b ≠ [] ∧ b.IsChain fun x y => cmpWithOpts x y opts ≠ .gt) ∧
        (blocks.IsChain fun b b' => ∀ x ∈ b.getLast?, ∀ y ∈ b'.head?, cmpWithOpts x y opts = .gt) ∧
        (findSuccessiveRuns values opts).length = blocks.length ∧
        ∀ i b, blocks[i]? = some b → (findSuccessiveRuns values opts)[i]? =
          some (SucRun.mk (blocks.take i).flatten.length b.length (b.filterMap id).head?
            (b.filterMap id).getLast?)) := by
  refine ⟨fun h => by subst h; rfl, fun hne => ?_⟩
  obtain ⟨blocks, hflat, hblocks, hbreaks, hruns⟩ := findSuccessiveRuns_eq_blocks opts values hne
  refine ⟨blocks, hflat, hblocks, hbreaks, by rw [hruns, length_runsOfValueBlocks],
    fun i b hb => ?_⟩
  rw [hruns, getElem?_runsOfValueBlocks, hb, Option.map_some, Nat.zero_add]

/-- On a column of non-null values the blocks of the column are those of blocks of rows. -/
lemma exists_rowBlocks {β γ : Type} {f : β → γ} {rows : List β} {blocks : List (List γ)}
    (h : blocks.flatten = rows.map f) :
    ∃ rowBlocks : List (List β), rowBlocks.flatten = rows ∧ rowBlocks.map (List.map f) = blocks := by
  induction blocks generalizing rows with
  | nil =>
    refine ⟨[], ?_, rfl⟩
    simpa [eq_comm] using h
  | cons b bs ih =>
    rw [List.flatten_cons, eq_comm, List.map_eq_append_iff] at h
    obtain ⟨l₁, l₂, rfl, h₁, h₂⟩ := h
    obtain ⟨rbs, hflat, hmap⟩ := ih h₂.symm
    exact ⟨l₁ :: rbs, by rw [List.flatten_cons, hflat], by rw [List.map_cons, h₁, hmap]⟩

lemma runsOfValueBlocks_map (offset : ℕ) (rowBlocks : List (List α)) :
    runsOfValueBlocks offset (rowBlocks.map (List.map fun a => some (key a))) =
      runsOfBlocks key offset rowBlocks := by
  induction rowBlocks generalizing offset with
  | nil => rfl
  | cons b bs ih =>
    have hvals : (b.map fun a => some (key a)).filterMap id = b.map key := by
      rw [List.filterMap_map]
      exact congrFun List.filterMap_eq_map b
    simp only [List.map_cons, runsOfValueBlocks, runsOfBlocks, hvals, List.head?_map,
      List.getLast?_map, List.length_map, ih]

/-- The runs of a non-empty batch are those of blocks whose concatenation is the batch, each
non-empty and sorted. -/
theorem findSuccessiveRuns_blocks (rows : List α) (hne : rows ≠ []) :
    ∃ blocks, blocks.flatten = rows ∧
      (∀ b ∈ blocks, b ≠ [] ∧ b.IsChain fun x y => sortLe key opts x y) ∧
      findSuccessiveRuns (rows.map fun a => some (key a)) opts = runsOfBlocks key 0 blocks := by
  obtain ⟨blocks, hflat, hblocks, -, hruns⟩ :=
    findSuccessiveRuns_eq_blocks opts (rows.map fun a => some (key a)) (by simpa using hne)
  obtain ⟨rowBlocks, hrows, rfl⟩ := exists_rowBlocks hflat
  refine ⟨rowBlocks, hrows, fun b hb => ?_, by rw [hruns, runsOfValueBlocks_map]⟩
  obtain ⟨hne', hchain⟩ := hblocks _ (List.mem_map_of_mem hb)
  refine ⟨fun h => hne' (by rw [h, List.map_nil]), ?_⟩
  rw [List.isChain_map] at hchain
  exact hchain.imp fun {_ _} hxy => by simp [sortLe, hxy]

lemma findSuccessiveRuns_nil : findSuccessiveRuns [] opts = [⟨0, 0, none, none⟩] := rfl

@[simp]
lemma length_runsOfBlocks (offset : ℕ) (blocks : List (List α)) :
    (runsOfBlocks key offset blocks).length = blocks.length := by
  induction blocks generalizing offset with
  | nil => rfl
  | cons b bs ih => simp [runsOfBlocks, ih]

/-- The run of a sorted block is sorted and has the block's first and last values. -/
lemma mem_zip_runsOfBlocks (offset : ℕ) (blocks : List (List α))
    (hblocks : ∀ b ∈ blocks, b.IsChain fun x y => sortLe key opts x y) :
    ∀ p ∈ blocks.zip (runsOfBlocks key offset blocks), (p.1.IsChain fun x y => sortLe key opts x y) ∧
      p.2.firstVal = p.1.head?.map key ∧ p.2.lastVal = p.1.getLast?.map key := by
  induction blocks generalizing offset with
  | nil => simp
  | cons b bs ih =>
    intro p hp
    simp only [runsOfBlocks, List.zip_cons_cons, List.mem_cons] at hp
    rcases hp with rfl | hp
    · exact ⟨hblocks b List.mem_cons_self, rfl, rfl⟩
    · exact ih _ (fun b' hb' => hblocks b' (List.mem_cons_of_mem _ hb')) p hp

/-- Slicing a batch at the runs of its blocks gives the blocks back. -/
lemma mapM_slice_runsOfBlocks (pre : List α) (blocks : List (List α)) (post : List α) :
    (runsOfBlocks key pre.length blocks).mapM (fun run =>
      if run.offset + run.len > (pre ++ blocks.flatten ++ post).length then
        (.error .invalidRun : Except StreamError (List α × SucRun))
      else .ok (((pre ++ blocks.flatten ++ post).drop run.offset).take run.len, run)) =
      .ok (blocks.zip (runsOfBlocks key pre.length blocks)) := by
  induction blocks generalizing pre with
  | nil => rfl
  | cons b bs ih =>
    have hle : ¬(pre.length + b.length > (pre ++ (b :: bs).flatten ++ post).length) := by
      simp only [List.flatten_cons, List.length_append]
      omega
    have hslice : ((pre ++ (b :: bs).flatten ++ post).drop pre.length).take b.length = b := by
      simp [List.append_assoc]
    have ih' := ih (pre ++ b)
    simp only [List.length_append, List.append_assoc, List.flatten_cons] at ih' hle hslice ⊢
    simp only [runsOfBlocks, List.mapM_cons, hle, if_false, hslice, ih', List.zip_cons_cons]
    rfl

/-- `split_batch_to_sorted_run` never fails on a batch of non-null values, and its runs are
the rows of the batch in order, each sorted, with their first and last values. -/
lemma splitBatchToSortedRun_spec (batch : List α) :
    ∃ ps, splitBatchToSortedRun key opts batch = .ok ps ∧ (ps.map Prod.fst).flatten = batch ∧
      ∀ p ∈ ps, (p.1.IsChain fun x y => sortLe key opts x y) ∧
        p.2.firstVal = p.1.head?.map key ∧ p.2.lastVal = p.1.getLast?.map key := by
  by_cases hne : batch = []
  · subst hne
    exact ⟨[([], ⟨0, 0, none, none⟩)], rfl, rfl, by simp⟩
  obtain ⟨blocks, hflat, hblocks, hruns⟩ := findSuccessiveRuns_blocks key opts batch hne
  have hzip : (blocks.zip (runsOfBlocks key 0 blocks)).map Prod.fst = blocks :=
    List.map_fst_zip (by simp)
  refine ⟨blocks.zip (runsOfBlocks key 0 blocks), ?_, by rw [hzip, hflat],
    mem_zip_runsOfBlocks key opts 0 blocks fun b hb => (hblocks b hb).2⟩
  unfold splitBatchToSortedRun
  rw [hruns]
  match blocks, hflat, hblocks with
  | [b], hflat, hblocks =>
    simp only [List.flatten_cons, List.flatten_nil, List.append_nil] at hflat
    subst hflat
    simp [runsOfBlocks]
  | [], hflat, _ => exact absurd hflat.symm hne
  | b₁ :: b₂ :: bs, hflat, _ =>
    have := mapM_slice_runsOfBlocks key [] (b₁ :: b₂ :: bs) []
    simp only [List.nil_append, List.append_nil, List.length_nil, hflat] at this
    simpa [runsOfBlocks] using this

/-- In an ascending sort, the slice of a run from a range whose start is not above the run's
first value is the head of the run below the range's end. -/
lemma findSliceFromRange_of_asc (hasc : opts.descending = false) (run : List α) (range : TimeRange)
    (hhead : ∀ a ∈ run.head?, range.start ≤ key a) :
    findSliceFromRange (run.map key) opts range =
      (0, (run.takeWhile fun a => key a < range.end).length) := by
  have hlt : ∀ t v : ℤ, (cmpWithOpts (some v) (some t) opts == .lt) = decide (v < t) := by
    intro t v
    simp only [cmpWithOpts, hasc, Bool.false_eq_true, if_false]
    by_cases h : v < t
    · simp [h, compare_lt_iff_lt.mpr h]
    · simp [h, compare_lt_iff_lt]
  have hstart : bisect true opts (run.map key) range.start = 0 := by
    cases run with
    | nil => rfl
    | cons a run =>
      have ha := hhead a rfl
      simp [bisect, hlt, not_lt.mpr ha]
  have hend : bisect true opts (run.map key) range.end =
      (run.takeWhile fun a => key a < range.end).length := by
    simp only [bisect, if_true, hlt, List.takeWhile_map, List.length_map]
    rfl
  simp [findSliceFromRange, hasc, hstart, hend]

end Runs

end WindowSort

end Greptime
