import Mathlib.Data.List.GetD
import Mathlib.Data.Finset.Sort
import Mathlib.Tactic.Ring
import Greptime.Foundations.SortedMap
import Greptime.Foundations.Grouping
import Greptime.Index.PredicatesApply

/-!
# Row selections of an SST file

A reader of a parquet SST keeps, for each row group it still has to read, a `RowSelection`: a
run-length list of `RowSelector`s, each skipping or selecting a number of rows.  Mito keeps
them in a `RowGroupSelection`, a `BTreeMap` from row group ids to the selection of each group
with its row count and selector count, and with the totals of both over all groups.

The selections come from the whole file (`new`), from the row ids a fulltext index finds
(`from_row_ids`), from the segments an inverted index matches
(`from_inverted_index_apply_output`) and from the row ranges a bloom filter keeps
(`from_row_ranges`); they are intersected (`intersect`), and row groups are taken out
(`pop_first`, `remove_row_group`) or added (`concat`).

What a selection means is the set `sel` of the pairs (row group, row offset) it selects: a
selection of a row group reads as a list of booleans (`RowSelection.mask`), one a row, and
`intersect_row_selections` is the pointwise conjunction of two of them, cut where the shorter
ends.  The row count a `RowGroupSelection` keeps is the size of `sel` when it was built by
these operations (`Consistent`).  `concat` of row groups that are new adds their entries
(`concat_spec`), and `intersect` reads only the row groups of `other` where `self` selects rows
(`intersect_congr`).

`RowSelection::from_iter` and `row_count` are those of the `parquet` crate, which the module
calls: the first drops empty selectors and merges neighbours of one kind, as
`add_or_merge_selector` does.
-/

namespace Greptime

/-! ## Selectors -/

/-- `parquet::arrow::arrow_reader::RowSelector`: a run of rows to skip or to select. -/
structure RowSelector where
  rowCount : ℕ
  skip : Bool
  deriving DecidableEq, Repr

namespace RowSelector

/-- `RowSelector::select`. -/
def select (rowCount : ℕ) : RowSelector := ⟨rowCount, false⟩

/-- `RowSelector::skip`. -/
def skipRows (rowCount : ℕ) : RowSelector := ⟨rowCount, true⟩

/-- The rows of a selector, `true` for a selected one. -/
def mask (s : RowSelector) : List Bool := List.replicate s.rowCount (!s.skip)

@[simp] lemma mask_select (n : ℕ) : (select n).mask = List.replicate n true := rfl

@[simp] lemma mask_skipRows (n : ℕ) : (skipRows n).mask = List.replicate n false := rfl

end RowSelector

/-- The rows of selectors in turn, `true` for a selected one. -/
def selectorsMask (l : List RowSelector) : List Bool := l.flatMap RowSelector.mask

@[simp] lemma selectorsMask_nil : selectorsMask [] = [] := rfl

@[simp] lemma selectorsMask_cons (s : RowSelector) (l : List RowSelector) :
    selectorsMask (s :: l) = s.mask ++ selectorsMask l := rfl

@[simp] lemma selectorsMask_append (l l' : List RowSelector) :
    selectorsMask (l ++ l') = selectorsMask l ++ selectorsMask l' := List.flatMap_append

/-- `add_or_merge_selector`: a run merged into the last selector when they are of one kind. -/
def addOrMergeSelector (selectors : List RowSelector) (count : ℕ) (isSkip : Bool) :
    List RowSelector :=
  match selectors.getLast? with
  | some last =>
    if last.skip = isSkip then selectors.dropLast ++ [⟨last.rowCount + count, last.skip⟩]
    else selectors ++ [if isSkip then .skipRows count else .select count]
  | none => [if isSkip then .skipRows count else .select count]

/-- Adding a run puts its rows after the others, merged or not. -/
lemma selectorsMask_addOrMergeSelector (selectors : List RowSelector) (count : ℕ)
    (isSkip : Bool) :
    selectorsMask (addOrMergeSelector selectors count isSkip) =
      selectorsMask selectors ++ List.replicate count (!isSkip) := by
  have hnew : (if isSkip then RowSelector.skipRows count else .select count).mask =
      List.replicate count (!isSkip) := by
    cases isSkip <;> rfl
  unfold addOrMergeSelector
  split
  · rename_i last hlast
    split
    · rename_i hskip
      -- the last run grows by `count` rows of its kind
      conv_rhs => rw [← List.dropLast_append_getLast? last hlast]
      simp only [selectorsMask_append, selectorsMask_cons, selectorsMask_nil, RowSelector.mask,
        List.replicate_add, hskip, List.append_nil, List.append_assoc]
    · simp [hnew]
  · rename_i hnone
    rw [List.getLast?_eq_none_iff] at hnone
    simp [hnone, hnew]

/-- `parquet::arrow::arrow_reader::RowSelection`: its selectors. -/
structure RowSelection where
  selectors : List RowSelector
  deriving DecidableEq, Repr

namespace RowSelection

/-- `RowSelection::from_iter`: empty selectors dropped and neighbours of one kind merged, as
`add_or_merge_selector` merges them. -/
def ofSelectors (l : List RowSelector) : RowSelection :=
  ⟨(l.filter fun s => s.rowCount ≠ 0).foldl
    (fun acc s => addOrMergeSelector acc s.rowCount s.skip) []⟩

/-- `RowSelection::row_count`: the rows it selects. -/
def rowCount (s : RowSelection) : ℕ :=
  ((s.selectors.filter fun x => !x.skip).map (·.rowCount)).sum

/-- The rows of the selection, `true` for a selected one. -/
def mask (s : RowSelection) : List Bool := selectorsMask s.selectors

/-- Whether the selection selects the row at an offset. -/
def selects (s : RowSelection) (i : ℕ) : Bool := s.mask.getD i false

/-- Merging selectors keeps the rows they select. -/
lemma mask_ofSelectors (l : List RowSelector) : (ofSelectors l).mask = selectorsMask l := by
  -- the fold adds the non-empty selectors one by one
  have hfold : ∀ (acc l : List RowSelector),
      selectorsMask ((l.filter fun s => s.rowCount ≠ 0).foldl
        (fun acc s => addOrMergeSelector acc s.rowCount s.skip) acc) =
        selectorsMask acc ++ selectorsMask l := by
    intro acc l
    induction l generalizing acc with
    | nil => simp
    | cons s l ih =>
      by_cases hs : s.rowCount = 0
      · rw [List.filter_cons_of_neg (by simpa using hs), ih]
        simp [RowSelector.mask, hs]
      · rw [List.filter_cons_of_pos (by simpa using hs), List.foldl_cons, ih,
          selectorsMask_addOrMergeSelector]
        simp [RowSelector.mask]
  have h := hfold [] l
  rw [selectorsMask_nil, List.nil_append] at h
  exact h

/-- The row count of a selection is the number of rows its mask selects. -/
lemma rowCount_eq_count (s : RowSelection) : s.rowCount = s.mask.count true := by
  obtain ⟨l⟩ := s
  simp only [rowCount, mask]
  induction l with
  | nil => rfl
  | cons x l ih =>
    cases hx : x.skip <;> simp [hx, ih, RowSelector.mask, List.count_replicate]

/-- The offsets a selection selects. -/
def rows (s : RowSelection) : Finset ℕ :=
  (Finset.range s.mask.length).filter fun i => s.selects i = true

lemma mem_rows {s : RowSelection} {i : ℕ} : i ∈ s.rows ↔ s.selects i = true := by
  unfold rows selects
  rw [Finset.mem_filter, Finset.mem_range, and_iff_right_iff_imp]
  intro h
  by_contra hi
  rw [List.getD_eq_default _ _ (by omega)] at h
  cases h

lemma card_filter_getD (l : List Bool) :
    ((Finset.range l.length).filter fun i => l.getD i false = true).card = l.count true := by
  induction l with
  | nil => rfl
  | cons b l ih =>
    -- the offsets past the head are those of the tail, shifted by one
    let succ : ℕ ↪ ℕ := ⟨fun i => i + 1, fun _ _ h => by simpa using h⟩
    have hshift : ((Finset.range l.length).map succ).filter
        (fun i => (b :: l).getD i false = true) =
        ((Finset.range l.length).filter fun i => l.getD i false = true).map succ := by
      rw [Finset.filter_map]
      rfl
    have h0 : 0 ∉ ((Finset.range l.length).filter fun i => l.getD i false = true).map succ := by
      simp [succ]
    rw [List.length_cons, Finset.range_add_one', Finset.filter_insert, hshift]
    cases b
    · rw [List.getD_cons_zero, if_neg Bool.false_ne_true, Finset.card_map, ih,
        List.count_cons_of_ne Bool.false_ne_true]
    · rw [List.getD_cons_zero, if_pos rfl, Finset.card_insert_of_notMem h0, Finset.card_map, ih,
        List.count_cons_self]

/-- `row_count()` counts the offsets the selection selects. -/
lemma card_rows (s : RowSelection) : s.rows.card = s.rowCount := by
  rw [rowCount_eq_count]
  exact card_filter_getD s.mask

lemma rowCount_pos_of_selects {s : RowSelection} {i : ℕ} (h : s.selects i = true) :
    0 < s.rowCount := by
  rw [← card_rows]
  exact Finset.card_pos.mpr ⟨i, mem_rows.mpr h⟩

lemma exists_selects_of_rowCount_pos {s : RowSelection} (h : 0 < s.rowCount) :
    ∃ i, s.selects i = true := by
  rw [← card_rows] at h
  obtain ⟨i, hi⟩ := Finset.card_pos.mp h
  exact ⟨i, mem_rows.mp hi⟩

/-- One selector of `n` rows selects the offsets below `n`. -/
@[simp] lemma selects_ofSelectors_select (n i : ℕ) :
    (ofSelectors [.select n]).selects i = decide (i < n) := by
  rw [selects, mask_ofSelectors, selectorsMask_cons, selectorsMask_nil, List.append_nil,
    RowSelector.mask_select]
  by_cases hi : i < n
  · rw [List.getD_replicate _ hi, decide_eq_true hi]
  · rw [List.getD_eq_default _ _ (by simpa using hi), decide_eq_false hi]

/-- Without selectors nothing is selected. -/
@[simp] lemma selects_nil (i : ℕ) : (⟨[]⟩ : RowSelection).selects i = false := rfl

end RowSelection

/-! ## Intersection -/

/-- The loop of `intersect_row_selections`: the runs at the heads of both lists are cut to the
shorter, selected where both select and skipped otherwise; the longer keeps its rest.  It stops
where one list ends, so the rows after the shorter are dropped. -/
def intersectSelectors : List RowSelector → List RowSelector → List RowSelector
  | [], _ => []
  | _ :: _, [] => []
  | l :: ls, r :: rs =>
    if l.rowCount = 0 then intersectSelectors ls (r :: rs)
    else if r.rowCount = 0 then intersectSelectors (l :: ls) rs
    else if !l.skip && !r.skip then
      if l.rowCount < r.rowCount then
        l :: intersectSelectors ls (⟨r.rowCount - l.rowCount, r.skip⟩ :: rs)
      else r :: intersectSelectors (⟨l.rowCount - r.rowCount, l.skip⟩ :: ls) rs
    else if l.rowCount < r.rowCount then
      .skipRows l.rowCount :: intersectSelectors ls (⟨r.rowCount - l.rowCount, r.skip⟩ :: rs)
    else .skipRows r.rowCount :: intersectSelectors (⟨l.rowCount - r.rowCount, l.skip⟩ :: ls) rs
termination_by l r => l.length + r.length

/-- `intersect_row_selections`. -/
def intersectRowSelections (left right : RowSelection) : RowSelection :=
  RowSelection.ofSelectors (intersectSelectors left.selectors right.selectors)

/-- Cutting runs of `n ≤ m` rows: the conjunction of the first `n` rows, and the rest of the
longer run left to meet what follows the shorter. -/
lemma zipWith_and_replicate_append {n m : ℕ} (h : n ≤ m) (x y : Bool) (L R : List Bool) :
    List.zipWith (· && ·) (List.replicate n x ++ L) (List.replicate m y ++ R) =
      List.replicate n (x && y) ++
        List.zipWith (· && ·) L (List.replicate (m - n) y ++ R) := by
  obtain ⟨k, rfl⟩ := Nat.exists_eq_add_of_le h
  rw [List.replicate_add, List.append_assoc, List.zipWith_append (by simp),
    List.zipWith_replicate', Nat.add_sub_cancel_left]

lemma zipWith_and_replicate_append' {n m : ℕ} (h : m ≤ n) (x y : Bool) (L R : List Bool) :
    List.zipWith (· && ·) (List.replicate n x ++ L) (List.replicate m y ++ R) =
      List.replicate m (x && y) ++
        List.zipWith (· && ·) (List.replicate (n - m) x ++ L) R := by
  obtain ⟨k, rfl⟩ := Nat.exists_eq_add_of_le h
  rw [List.replicate_add, List.append_assoc, List.zipWith_append (by simp),
    List.zipWith_replicate', Nat.add_sub_cancel_left]

/-- The intersection selects a row where both selections select it, up to where the shorter
ends.  The induction follows the loop. -/
lemma selectorsMask_intersectSelectors (l r : List RowSelector) :
    selectorsMask (intersectSelectors l r) =
      List.zipWith (· && ·) (selectorsMask l) (selectorsMask r) := by
  fun_induction intersectSelectors l r with
  | case1 => simp
  | case2 => simp
  | case3 l ls r rs hl ih => simp [ih, RowSelector.mask, hl]
  | case4 l ls r rs hl hr ih => simp [ih, RowSelector.mask, hr]
  | case5 l ls r rs hl hr hsel hlt ih =>
    simp only [Bool.and_eq_true, Bool.not_eq_eq_eq_not, Bool.not_true] at hsel
    rw [selectorsMask_cons, ih]
    simp only [selectorsMask_cons, RowSelector.mask]
    rw [zipWith_and_replicate_append (Nat.le_of_lt hlt)]
    simp [hsel.1, hsel.2]
  | case6 l ls r rs hl hr hsel hlt ih =>
    simp only [Bool.and_eq_true, Bool.not_eq_eq_eq_not, Bool.not_true] at hsel
    rw [selectorsMask_cons, ih]
    simp only [selectorsMask_cons, RowSelector.mask]
    rw [zipWith_and_replicate_append' (Nat.le_of_not_lt hlt)]
    simp [hsel.1, hsel.2]
  | case7 l ls r rs hl hr hsel hlt ih =>
    have hand : (!l.skip && !r.skip) = false := by simpa using hsel
    rw [selectorsMask_cons, RowSelector.mask_skipRows, ih]
    simp only [selectorsMask_cons, RowSelector.mask]
    rw [zipWith_and_replicate_append (Nat.le_of_lt hlt), hand]
  | case8 l ls r rs hl hr hsel hlt ih =>
    have hand : (!l.skip && !r.skip) = false := by simpa using hsel
    rw [selectorsMask_cons, RowSelector.mask_skipRows, ih]
    simp only [selectorsMask_cons, RowSelector.mask]
    rw [zipWith_and_replicate_append' (Nat.le_of_not_lt hlt), hand]

lemma mask_intersectRowSelections (left right : RowSelection) :
    (intersectRowSelections left right).mask = List.zipWith (· && ·) left.mask right.mask := by
  rw [intersectRowSelections, RowSelection.mask_ofSelectors, selectorsMask_intersectSelectors]
  rfl

/-- `intersect_row_selections` selects a row where both selections select it. -/
lemma selects_intersectRowSelections (left right : RowSelection) (i : ℕ) :
    (intersectRowSelections left right).selects i = (left.selects i && right.selects i) := by
  simp only [RowSelection.selects, mask_intersectRowSelections, List.getD_eq_getElem?_getD,
    List.getElem?_zipWith]
  cases left.mask[i]? <;> cases right.mask[i]? <;> simp

/-! ## Selections of row ranges -/

/-- One range `start..end_` of the loops of `row_selection_from_row_ranges` and
`row_selection_from_sorted_row_ids`: the rows from the end of the last range to its start are
skipped, and its rows selected. -/
def pushRange (acc : List RowSelector × ℕ) (start end_ : ℕ) : List RowSelector × ℕ :=
  let (selectors, lastProcessedEnd) := acc
  let selectors := if start > lastProcessedEnd then
    addOrMergeSelector selectors (start - lastProcessedEnd) true else selectors
  (addOrMergeSelector selectors (end_ - start) false, end_)

/-- `row_selection_from_row_ranges`: ranges `(start, end)` of a group of `totalRowCount` rows,
each cut at the end of the group. -/
def rowSelectionFromRowRanges (rowRanges : List (ℕ × ℕ)) (totalRowCount : ℕ) : RowSelection :=
  RowSelection.ofSelectors
    (rowRanges.foldl (fun acc r => pushRange acc r.1 (min r.2 totalRowCount)) ([], 0)).1

/-- `row_selection_from_sorted_row_ids`: a range of one row for each id, and the rows after
the last id skipped. -/
def rowSelectionFromSortedRowIds (rowIds : List ℕ) (totalRowCount : ℕ) : RowSelection :=
  let (selectors, lastProcessedEnd) :=
    rowIds.foldl (fun acc rowId => pushRange acc rowId (rowId + 1)) ([], 0)
  let selectors := if lastProcessedEnd < totalRowCount then
    addOrMergeSelector selectors (totalRowCount - lastProcessedEnd) true else selectors
  RowSelection.ofSelectors selectors

/-- A row after skipped and selected runs: selected where it was, or in the selected run. -/
lemma getD_append_replicate (l : List Bool) (a b i : ℕ) :
    (l ++ List.replicate a false ++ List.replicate b true).getD i false =
      (l.getD i false || decide (l.length + a ≤ i ∧ i < l.length + a + b)) := by
  rw [List.append_assoc]
  by_cases hi : i < l.length
  · rw [List.getD_append _ _ _ _ hi]
    simp
    omega
  have hge : l.length ≤ i := Nat.le_of_not_lt hi
  rw [List.getD_append_right _ _ _ _ hge, List.getD_eq_default _ _ hge, Bool.false_or]
  by_cases ha : i - l.length < a
  · rw [List.getD_append _ _ _ _ (by simpa using ha), List.getD_replicate _ ha]
    simp
    omega
  have hge' : a ≤ i - l.length := Nat.le_of_not_lt ha
  rw [List.getD_append_right _ _ _ _ (by simpa using hge'), List.length_replicate]
  by_cases hb : i - l.length - a < b
  · rw [List.getD_replicate _ hb]
    simp
    omega
  · rw [List.getD_eq_default _ _ (by simpa using Nat.le_of_not_lt hb)]
    simp
    omega

/-- One range after the last: the rows up to its end, selected where a range holds them. -/
lemma pushRange_spec {selectors : List RowSelector} {last start end_ : ℕ}
    (hlen : (selectorsMask selectors).length = last) (hstart : last ≤ start)
    (hend : start ≤ end_) :
    (selectorsMask (pushRange (selectors, last) start end_).1).length = end_ ∧
      ∀ i, (selectorsMask (pushRange (selectors, last) start end_).1).getD i false =
        ((selectorsMask selectors).getD i false || decide (start ≤ i ∧ i < end_)) := by
  have hmask : selectorsMask (pushRange (selectors, last) start end_).1 =
      selectorsMask selectors ++ List.replicate (start - last) false ++
        List.replicate (end_ - start) true := by
    simp only [pushRange]
    split
    · simp [selectorsMask_addOrMergeSelector]
    · rename_i hle
      have : start - last = 0 := by omega
      simp [selectorsMask_addOrMergeSelector, this]
  refine ⟨by simp [hmask]; omega, fun i => ?_⟩
  rw [hmask, getD_append_replicate, hlen]
  congr 2
  simp only [eq_iff_iff]
  omega

/-- The walk over ranges that are sorted and apart: the rows up to the end of the last range,
each selected when a range holds it.  The induction adds one range at the end. -/
lemma foldl_pushRange (ranges : List (ℕ × ℕ)) (hwf : ∀ r ∈ ranges, r.1 ≤ r.2)
    (hchain : ranges.IsChain fun r r' => r.2 ≤ r'.1) :
    (ranges.foldl (fun acc r => pushRange acc r.1 r.2) ([], 0)).2 =
        (ranges.getLast?.map Prod.snd).getD 0 ∧
      (selectorsMask (ranges.foldl (fun acc r => pushRange acc r.1 r.2) ([], 0)).1).length =
        (ranges.getLast?.map Prod.snd).getD 0 ∧
      ∀ i, (selectorsMask (ranges.foldl (fun acc r => pushRange acc r.1 r.2) ([], 0)).1).getD
        i false = decide (∃ r ∈ ranges, r.1 ≤ i ∧ i < r.2) := by
  induction ranges using List.reverseRecOn with
  | nil => exact ⟨rfl, rfl, fun i => by simp⟩
  | append_singleton ranges r ih =>
    obtain ⟨hpre, -, hjoin⟩ := List.isChain_append.mp hchain
    obtain ⟨hlast, hlen, hmask⟩ :=
      ih (fun r' hr' => hwf r' (List.mem_append_left _ hr')) hpre
    -- the range before `r` ends before it starts
    have hstart : (ranges.getLast?.map Prod.snd).getD 0 ≤ r.1 := by
      cases hl : ranges.getLast? with
      | none => exact Nat.zero_le _
      | some r' => exact hjoin r' hl r (by simp)
    rw [List.foldl_append, List.foldl_cons, List.foldl_nil]
    generalize ranges.foldl (fun acc r => pushRange acc r.1 r.2) ([], 0) = acc at hlast hlen hmask
    obtain ⟨selectors, last⟩ := acc
    dsimp only at hlast hlen hmask
    subst hlast
    obtain ⟨hlen', hmask'⟩ := pushRange_spec hlen hstart
      (hwf r (List.mem_append_right _ List.mem_cons_self))
    refine ⟨by simp [pushRange], by simpa using hlen', fun i => ?_⟩
    rw [hmask', hmask, Bool.eq_iff_iff]
    simp only [Bool.or_eq_true, decide_eq_true_eq, List.mem_append, List.mem_singleton]
    constructor
    · rintro (⟨r', hr', h⟩ | h)
      · exact ⟨r', .inl hr', h⟩
      · exact ⟨r, .inr rfl, h⟩
    · rintro ⟨r', hr' | rfl, h⟩
      · exact .inl ⟨r', hr', h⟩
      · exact .inr h

/-- Over ranges sorted and apart within the group, the selection is their union. -/
lemma selects_rowSelectionFromRowRanges {ranges : List (ℕ × ℕ)} {totalRowCount : ℕ}
    (hwf : ∀ r ∈ ranges, r.1 ≤ r.2) (hchain : ranges.IsChain fun r r' => r.2 ≤ r'.1)
    (hbound : ∀ r ∈ ranges, r.2 ≤ totalRowCount) (i : ℕ) :
    (rowSelectionFromRowRanges ranges totalRowCount).selects i =
      decide (∃ r ∈ ranges, r.1 ≤ i ∧ i < r.2) := by
  -- no range reaches past the group, so none is cut
  have hcut : ranges.map (fun r => (r.1, min r.2 totalRowCount)) = ranges := by
    conv_rhs => rw [← List.map_id ranges]
    exact List.map_congr_left fun r hr => by simp [Nat.min_eq_left (hbound r hr)]
  have hfold := (foldl_pushRange ranges hwf hchain).2.2 i
  rw [← hcut, List.foldl_map] at hfold
  rw [RowSelection.selects, rowSelectionFromRowRanges, RowSelection.mask_ofSelectors, hfold, hcut]

/-- Over sorted row ids, the selection is the rows of those ids. -/
lemma selects_rowSelectionFromSortedRowIds {rowIds : List ℕ} (totalRowCount : ℕ)
    (hsorted : rowIds.Pairwise (· < ·)) (i : ℕ) :
    (rowSelectionFromSortedRowIds rowIds totalRowCount).selects i = decide (i ∈ rowIds) := by
  -- each id is the range of its one row
  have hchain : (rowIds.map fun rowId => (rowId, rowId + 1)).IsChain
      fun r r' => r.2 ≤ r'.1 := by
    rw [List.isChain_map]
    exact hsorted.isChain.imp fun _ _ h => h
  obtain ⟨-, -, hmask⟩ := foldl_pushRange _ (by simp) hchain
  rw [List.foldl_map] at hmask
  unfold rowSelectionFromSortedRowIds
  generalize rowIds.foldl (fun acc rowId => pushRange acc rowId (rowId + 1)) ([], 0) = acc at hmask
  obtain ⟨selectors, last⟩ := acc
  have hrow : (selectorsMask selectors).getD i false = decide (i ∈ rowIds) := by
    rw [hmask i]
    simp only [List.mem_map, decide_eq_decide]
    constructor
    · rintro ⟨_, ⟨rowId, hid, rfl⟩, h1, h2⟩
      obtain rfl : rowId = i := by omega
      exact hid
    · intro hi
      exact ⟨_, ⟨i, hi, rfl⟩, le_refl i, Nat.lt_succ_self i⟩
  dsimp only
  split
  · -- the rows after the last id are skipped
    rw [RowSelection.selects, RowSelection.mask_ofSelectors, selectorsMask_addOrMergeSelector,
      ← hrow]
    by_cases hi : i < (selectorsMask selectors).length
    · exact List.getD_append _ _ _ _ hi
    · have hge := Nat.le_of_not_lt hi
      rw [List.getD_append_right _ _ _ _ hge, List.getD_eq_default _ _ hge]
      by_cases hi' : i - (selectorsMask selectors).length < totalRowCount - last
      · rw [List.getD_replicate _ hi']
        rfl
      · exact List.getD_eq_default _ _ (by simpa using Nat.le_of_not_lt hi')
  · rw [RowSelection.selects, RowSelection.mask_ofSelectors, hrow]

/-! ## Selections of row groups -/

/-- `RowSelectionWithCount`: a selection with its row count and its number of selectors, which
every constructor of the source, `Default` included, computes from the selection. -/
structure RowSelectionWithCount where
  selection : RowSelection
  rowCount : ℕ
  selectorLen : ℕ
  rowCount_eq : rowCount = selection.rowCount
  selectorLen_eq : selectorLen = selection.selectors.length

namespace RowSelectionWithCount

/-- A selection with the counts `row_count()` and `selector_len` give. -/
def ofSelection (selection : RowSelection) : RowSelectionWithCount :=
  ⟨selection, selection.rowCount, selection.selectors.length, rfl, rfl⟩

@[simp] lemma ofSelection_selection (selection : RowSelection) :
    (ofSelection selection).selection = selection := rfl

/-- `RowSelectionWithCount::default`: no selector. -/
instance : Inhabited RowSelectionWithCount := ⟨ofSelection ⟨[]⟩⟩

end RowSelectionWithCount

/-- `RowGroupSelection`: the selection of each row group by id, in a `BTreeMap` whose ids
strictly increase, with the totals of their row counts and selector counts. -/
structure RowGroupSelection where
  selectionInRg : List (ℕ × RowSelectionWithCount)
  rowCount : ℕ
  selectorLen : ℕ
  sorted : SortedMap.Sorted selectionInRg

namespace RowGroupSelection

/-- `RowGroupSelection::default`: no row group. -/
instance : Inhabited RowGroupSelection := ⟨⟨[], 0, 0, List.Pairwise.nil⟩⟩

/-- The rows the entries of a map select: each row group paired with the offsets its selection
selects. -/
def selOf : List (ℕ × RowSelectionWithCount) → Finset (ℕ × ℕ)
  | [] => ∅
  | entry :: l => entry.2.selection.rows.image (Prod.mk entry.1) ∪ selOf l

/-- `sel`: the rows a selection selects, as (row group, offset) pairs. -/
def sel (s : RowGroupSelection) : Finset (ℕ × ℕ) := selOf s.selectionInRg

lemma mem_selOf {l : List (ℕ × RowSelectionWithCount)} {p : ℕ × ℕ} :
    p ∈ selOf l ↔ ∃ x, (p.1, x) ∈ l ∧ x.selection.selects p.2 = true := by
  induction l with
  | nil => simp [selOf]
  | cons entry l ih =>
    rw [selOf, Finset.mem_union, ih, Finset.mem_image]
    constructor
    · rintro (⟨i, hi, rfl⟩ | ⟨x, hx, hsel⟩)
      · exact ⟨entry.2, List.mem_cons_self, RowSelection.mem_rows.mp hi⟩
      · exact ⟨x, List.mem_cons_of_mem _ hx, hsel⟩
    · rintro ⟨x, hx, hsel⟩
      rcases List.mem_cons.mp hx with hx | hx
      · rw [← hx]
        exact .inl ⟨p.2, RowSelection.mem_rows.mpr hsel, rfl⟩
      · exact .inr ⟨x, hx, hsel⟩

lemma mem_sel {s : RowGroupSelection} {p : ℕ × ℕ} :
    p ∈ s.sel ↔ ∃ x, (p.1, x) ∈ s.selectionInRg ∧ x.selection.selects p.2 = true :=
  mem_selOf

/-- Maps with the same entries select the same rows. -/
lemma selOf_congr {l l' : List (ℕ × RowSelectionWithCount)} (h : ∀ e, e ∈ l ↔ e ∈ l') :
    selOf l = selOf l' := by
  ext p
  simp only [mem_selOf, h]

/-- Over distinct row groups the rows of the entries are disjoint, so they count up to the sum
of the entries' row counts. -/
lemma card_selOf {l : List (ℕ × RowSelectionWithCount)} (hl : (l.map Prod.fst).Nodup) :
    (selOf l).card = (l.map (·.2.rowCount)).sum := by
  induction l with
  | nil => rfl
  | cons entry l ih =>
    rw [List.map_cons, List.nodup_cons] at hl
    have hdisj : Disjoint (entry.2.selection.rows.image (Prod.mk entry.1)) (selOf l) := by
      rw [Finset.disjoint_left]
      rintro p hp hp'
      obtain ⟨i, -, rfl⟩ := Finset.mem_image.mp hp
      obtain ⟨x, hx, -⟩ := mem_selOf.mp hp'
      have hkey := List.mem_map_of_mem (f := Prod.fst) hx
      exact hl.1 hkey
    rw [selOf, Finset.card_union_of_disjoint hdisj,
      Finset.card_image_of_injective _ (Prod.mk_right_injective _), RowSelection.card_rows,
      ih hl.2, List.map_cons, List.sum_cons, entry.2.rowCount_eq]

/-- The rows of a selection count up to the row counts of its row groups. -/
lemma card_sel (s : RowGroupSelection) :
    s.sel.card = (s.selectionInRg.map (·.2.rowCount)).sum :=
  card_selOf s.sorted.nodup_keys

/-- The rows of a map built from entries of distinct row groups are those of the entries. -/
lemma selOf_ofList {xs : List (ℕ × RowSelectionWithCount)} (hxs : (xs.map Prod.fst).Nodup) :
    selOf (SortedMap.ofList compare xs) = selOf xs :=
  selOf_congr fun _ => SortedMap.mem_ofList_iff hxs

/-- The rows of entries that give each row group of a list a selection. -/
lemma mem_selOf_map {β : Type} {l : List (ℕ × β)} {f : ℕ × β → RowSelection} {p : ℕ × ℕ} :
    p ∈ selOf (l.map fun c => (c.1, RowSelectionWithCount.ofSelection (f c))) ↔
      ∃ c ∈ l, c.1 = p.1 ∧ (f c).selects p.2 = true := by
  rw [mem_selOf]
  simp only [List.mem_map, Prod.mk.injEq]
  constructor
  · rintro ⟨x, ⟨c, hc, h1, rfl⟩, hsel⟩
    exact ⟨c, hc, h1, hsel⟩
  · rintro ⟨c, hc, h1, hsel⟩
    exact ⟨_, ⟨c, hc, h1, rfl⟩, hsel⟩

/-- `fill_missing_row_groups`: an empty selection for each row group below `numRowGroups` that
has none, to mark it searched. -/
def fillMissingRowGroups (selectionInRg : List (ℕ × RowSelectionWithCount))
    (numRowGroups : ℕ) : List (ℕ × RowSelectionWithCount) :=
  (List.range numRowGroups).foldl (fun m rgId => SortedMap.orInsert compare rgId default m)
    selectionInRg

lemma sorted_fillMissingRowGroups {selectionInRg : List (ℕ × RowSelectionWithCount)}
    (h : SortedMap.Sorted selectionInRg) (numRowGroups : ℕ) :
    SortedMap.Sorted (fillMissingRowGroups selectionInRg numRowGroups) := by
  unfold fillMissingRowGroups
  generalize List.range numRowGroups = ids
  induction ids generalizing selectionInRg with
  | nil => exact h
  | cons rgId ids ih => exact ih (SortedMap.sorted_orInsert h)

/-- The empty selections `fill_missing_row_groups` adds select no row. -/
lemma selOf_fillMissingRowGroups {selectionInRg : List (ℕ × RowSelectionWithCount)}
    (h : SortedMap.Sorted selectionInRg) (numRowGroups : ℕ) :
    selOf (fillMissingRowGroups selectionInRg numRowGroups) = selOf selectionInRg := by
  unfold fillMissingRowGroups
  generalize List.range numRowGroups = ids
  induction ids generalizing selectionInRg with
  | nil => rfl
  | cons rgId ids ih =>
    rw [List.foldl_cons, ih (SortedMap.sorted_orInsert h)]
    ext p
    simp only [mem_selOf, SortedMap.mem_orInsert_iff h]
    constructor
    · rintro ⟨x, hx | ⟨hx, -⟩, hsel⟩
      · exact ⟨x, hx, hsel⟩
      · rw [Prod.mk.injEq] at hx
        rw [hx.2] at hsel
        cases hsel
    · rintro ⟨x, hx, hsel⟩
      exact ⟨x, .inl hx, hsel⟩

/-- `RowGroupSelection::new`: every row of a file of `totalRowCount` rows in row groups of
`rowGroupSize` rows, the last one excepted. -/
def new (rowGroupSize totalRowCount : ℕ) : RowGroupSelection :=
  -- `div_ceil`
  let rowGroupCount := (totalRowCount + rowGroupSize - 1) / rowGroupSize
  let entries := (List.range rowGroupCount).map fun rgId =>
    -- the last row group may have fewer rows than `row_group_size`
    let rowGroupSize := if rgId = rowGroupCount - 1 then
      totalRowCount - (rowGroupCount - 1) * rowGroupSize else rowGroupSize
    (rgId, RowSelectionWithCount.ofSelection (RowSelection.ofSelectors [.select rowGroupSize]))
  ⟨SortedMap.ofList compare entries, totalRowCount, rowGroupCount, SortedMap.sorted_ofList _⟩

/-- The entries collected into a `BTreeMap`, an empty selection for each row group below
`numRowGroups` without one, and the totals summed: how `from_inverted_index_apply_output` and
`from_row_ids` end. -/
def ofEntries (entries : List (ℕ × RowSelectionWithCount)) (numRowGroups : ℕ) :
    RowGroupSelection :=
  ⟨fillMissingRowGroups (SortedMap.ofList compare entries) numRowGroups,
    (entries.map (·.2.rowCount)).sum, (entries.map (·.2.selectorLen)).sum,
    sorted_fillMissingRowGroups (SortedMap.sorted_ofList _) _⟩

/-- The rows of `ofEntries` are those of the entries, when their row groups are distinct. -/
lemma sel_ofEntries {entries : List (ℕ × RowSelectionWithCount)}
    (hkeys : (entries.map Prod.fst).Nodup) (numRowGroups : ℕ) :
    (ofEntries entries numRowGroups).sel = selOf entries := by
  rw [sel, ofEntries]
  dsimp only
  rw [selOf_fillMissingRowGroups (SortedMap.sorted_ofList _), selOf_ofList hkeys]

/-- The total that `ofEntries` sums counts the rows it selects. -/
lemma rowCount_ofEntries {entries : List (ℕ × RowSelectionWithCount)}
    (hkeys : (entries.map Prod.fst).Nodup) (numRowGroups : ℕ) :
    (ofEntries entries numRowGroups).rowCount = (ofEntries entries numRowGroups).sel.card := by
  rw [sel_ofEntries hkeys, card_selOf hkeys]
  rfl

/-- `RowGroupSelection::from_inverted_index_apply_output`: the rows of the matched segments,
each segment's rows in the row group where it begins and cut at `rowGroupSize`, and an empty
selection for every other row group below `numRowGroups`. -/
def fromInvertedIndexApplyOutput (rowGroupSize numRowGroups : ℕ)
    (applyOutput : InvertedIndex.ApplyOutput) : RowGroupSelection :=
  let segmentRowCount := applyOutput.segmentRowCount
  let rowGroupRanges := applyOutput.matchedSegmentIds.iterOnes.map fun segId =>
    let beginRowId := segId * segmentRowCount
    let rowGroupId := beginRowId / rowGroupSize
    let rgBeginRowId := beginRowId % rowGroupSize
    let rgEndRowId := min (rgBeginRowId + segmentRowCount) rowGroupSize
    (rowGroupId, (rgBeginRowId, rgEndRowId))
  let entries := (Grouping.chunkBy Prod.fst rowGroupRanges).map fun chunk =>
    (chunk.1, RowSelectionWithCount.ofSelection
      (rowSelectionFromRowRanges (chunk.2.map Prod.snd) rowGroupSize))
  ofEntries entries numRowGroups

/-- A segment that runs past the end of the file is selected whole: its range is cut at the
size of a full row group, not at the rows the last row group has.  With row groups of 8 rows and
segments of 4 in a file of 10 rows, the matched segment 2 (rows 8 to 11) selects the offsets 0 to
3 of row group 1, which holds rows 8 and 9 only. -/
theorem fromInvertedIndexApplyOutput_selectsPastFile :
    (1, 3) ∈ (fromInvertedIndexApplyOutput 8 2 ⟨Bitmap.roaring {2}, 10, 4⟩).sel ∧
      (⟨Bitmap.roaring {2}, 10, 4⟩ : InvertedIndex.ApplyOutput).totalRowCount ≤ 1 * 8 + 3 := by
  decide

/-- One id of the loop of `group_row_ids_by_row_group`: its offset joins the last group when
the id is in that row group, and starts a group otherwise. -/
def groupRowIdStep (rowGroupSize : ℕ) (rowGroupToRowIds : List (ℕ × List ℕ)) (rowId : ℕ) :
    List (ℕ × List ℕ) :=
  let rowGroupId := rowId / rowGroupSize
  let rowIdInGroup := rowId % rowGroupSize
  match rowGroupToRowIds.getLast? with
  | some (rgId, rowIds) =>
    if rgId = rowGroupId then rowGroupToRowIds.dropLast ++ [(rgId, rowIds ++ [rowIdInGroup])]
    else rowGroupToRowIds ++ [(rowGroupId, [rowIdInGroup])]
  | none => rowGroupToRowIds ++ [(rowGroupId, [rowIdInGroup])]

/-- `group_row_ids_by_row_group`: the sorted ids cut by row group, each with its offsets in the
group.  `row_ids.len() / num_row_groups` only sizes the vectors, but divides by zero when there
is no row group. -/
def groupRowIdsByRowGroup (rowIds : List ℕ) (rowGroupSize numRowGroups : ℕ) :
    Option (List (ℕ × List ℕ)) :=
  if numRowGroups = 0 then none
  else some (rowIds.foldl (groupRowIdStep rowGroupSize) [])

/-- `RowGroupSelection::from_row_ids`: the rows of a set of ids, read in order, and an empty
selection for every other row group below `numRowGroups`; `none` where it panics. -/
def fromRowIds (rowIds : Finset ℕ) (rowGroupSize numRowGroups : ℕ) :
    Option RowGroupSelection := do
  let rowGroupToRowIds ← groupRowIdsByRowGroup (rowIds.sort (· ≤ ·)) rowGroupSize numRowGroups
  let entries := rowGroupToRowIds.map fun group =>
    (group.1, RowSelectionWithCount.ofSelection
      (rowSelectionFromSortedRowIds group.2 rowGroupSize))
  pure (ofEntries entries numRowGroups)

/-- The ranges of one row group as `from_row_ranges` assumes them: each well formed and within
the row group, in increasing order and apart. -/
structure RangesWithin (ranges : List (ℕ × ℕ)) (rowGroupSize : ℕ) : Prop where
  wf : ∀ r ∈ ranges, r.1 ≤ r.2
  sorted : ranges.IsChain fun r r' => r.2 ≤ r'.1
  bound : ∀ r ∈ ranges, r.2 ≤ rowGroupSize

/-- `RowGroupSelection::from_row_ranges`: the ranges of each listed row group; a row group
listed twice keeps its last ranges, and the totals count both. -/
def fromRowRanges (rowRanges : List (ℕ × List (ℕ × ℕ))) (rowGroupSize : ℕ) :
    RowGroupSelection :=
  let entries := rowRanges.map fun group =>
    (group.1, RowSelectionWithCount.ofSelection (rowSelectionFromRowRanges group.2 rowGroupSize))
  ⟨SortedMap.ofList compare entries, (entries.map (·.2.rowCount)).sum,
    (entries.map (·.2.selectorLen)).sum, SortedMap.sorted_ofList _⟩

/-- `RowGroupSelection::get`. -/
def get (s : RowGroupSelection) (rgId : ℕ) : Option RowSelection :=
  (SortedMap.get compare rgId s.selectionInRg).map (·.selection)

/-- `RowGroupSelection::intersect`: the row groups of `other` that `self` has too, each with the
intersection of both selections where it selects a row. -/
def intersect (self other : RowGroupSelection) : RowGroupSelection :=
  let entries := other.selectionInRg.filterMap fun entry =>
    (SortedMap.get compare entry.1 self.selectionInRg).bind fun y =>
      let selection := intersectRowSelections entry.2.selection y.selection
      if selection.rowCount > 0 then some (entry.1, RowSelectionWithCount.ofSelection selection)
      else none
  ⟨SortedMap.ofList compare entries, (entries.map (·.2.rowCount)).sum,
    (entries.map (·.2.selectorLen)).sum, SortedMap.sorted_ofList _⟩

/-- `RowGroupSelection::row_group_count`. -/
def rowGroupCount (s : RowGroupSelection) : ℕ := s.selectionInRg.length

/-- The loop of `RowGroupSelection::pop_first`: the row groups that select no row are taken
out until one that does, which is taken out with its counts and returned. -/
def popFirstLoop : (l : List (ℕ × RowSelectionWithCount)) → (rowCount selectorLen : ℕ) →
    SortedMap.Sorted l → Option (ℕ × RowSelection) × RowGroupSelection
  | [], rowCount, selectorLen, h => (none, ⟨[], rowCount, selectorLen, h⟩)
  | (rowGroupId, x) :: rest, rowCount, selectorLen, h =>
    if x.rowCount > 0 then
      (some (rowGroupId, x.selection),
        ⟨rest, rowCount - x.rowCount, selectorLen - x.selectorLen, h.of_cons⟩)
    else popFirstLoop rest rowCount selectorLen h.of_cons

/-- `RowGroupSelection::pop_first`. -/
def popFirst (s : RowGroupSelection) : Option (ℕ × RowSelection) × RowGroupSelection :=
  popFirstLoop s.selectionInRg s.rowCount s.selectorLen s.sorted

/-- `RowGroupSelection::remove_row_group`. -/
def removeRowGroup (s : RowGroupSelection) (rowGroupId : ℕ) : RowGroupSelection :=
  match SortedMap.get compare rowGroupId s.selectionInRg with
  | none => s
  | some x =>
    ⟨SortedMap.erase compare rowGroupId s.selectionInRg, s.rowCount - x.rowCount,
      s.selectorLen - x.selectorLen, SortedMap.sorted_erase s.sorted⟩

/-- `RowGroupSelection::is_empty`. -/
def isEmpty (s : RowGroupSelection) : Bool := s.selectionInRg.isEmpty

/-- `RowGroupSelection::contains_row_group`. -/
def containsRowGroup (s : RowGroupSelection) (rowGroupId : ℕ) : Bool :=
  (SortedMap.get compare rowGroupId s.selectionInRg).isSome

/-- `RowGroupSelection::contains_non_empty_row_group`. -/
def containsNonEmptyRowGroup (s : RowGroupSelection) (rowGroupId : ℕ) : Bool :=
  ((SortedMap.get compare rowGroupId s.selectionInRg).map fun r => decide (r.rowCount > 0)).getD
    false

/-- `RowGroupSelection::iter`. -/
def iter (s : RowGroupSelection) : List (ℕ × RowSelection) :=
  s.selectionInRg.map fun entry => (entry.1, entry.2.selection)

/-- `RowGroupSelection::concat`: the row groups of `other` added; `none` where it panics on a
row group `self` already has. -/
def concat (self other : RowGroupSelection) : Option RowGroupSelection :=
  other.selectionInRg.foldlM (fun s entry =>
    if (SortedMap.get compare entry.1 s.selectionInRg).isSome then none
    else some ⟨SortedMap.insert compare entry.1 entry.2 s.selectionInRg,
      s.rowCount + entry.2.rowCount, s.selectorLen + entry.2.selectorLen,
      SortedMap.sorted_insert s.sorted⟩) self

/-! ## What the selections select -/

/-- The sizes `new` gives its row groups cover the rows of the file once: an offset below the
size of a group below `div_ceil` is a row of the file, and back. -/
lemma lt_rowGroupSize_iff {rowGroupSize totalRowCount g o : ℕ} (hrgs : 0 < rowGroupSize) :
    (g < (totalRowCount + rowGroupSize - 1) / rowGroupSize ∧
      o < if g = (totalRowCount + rowGroupSize - 1) / rowGroupSize - 1 then
        totalRowCount - ((totalRowCount + rowGroupSize - 1) / rowGroupSize - 1) * rowGroupSize
      else rowGroupSize) ↔
    o < rowGroupSize ∧ g * rowGroupSize + o < totalRowCount := by
  set q := (totalRowCount + rowGroupSize - 1) / rowGroupSize with hq
  -- `div_ceil`: the groups cover the file, and the last one is not empty
  have hdiv := Nat.div_add_mod (totalRowCount + rowGroupSize - 1) rowGroupSize
  have hmod := Nat.mod_lt (totalRowCount + rowGroupSize - 1) hrgs
  rw [← hq, Nat.mul_comm] at hdiv
  have hcover : totalRowCount ≤ q * rowGroupSize := by omega
  have hlast : q * rowGroupSize < totalRowCount + rowGroupSize := by omega
  constructor
  · rintro ⟨hg, ho⟩
    split_ifs at ho with hlastg
    · have hq' : q * rowGroupSize = g * rowGroupSize + rowGroupSize := by
        rw [← Nat.succ_mul]
        congr 1
        omega
      rw [← hlastg] at ho
      omega
    · have hle : (g + 1) * rowGroupSize ≤ (q - 1) * rowGroupSize :=
        Nat.mul_le_mul_right _ (by omega)
      rw [Nat.succ_mul, Nat.sub_one_mul] at hle
      omega
  · rintro ⟨ho, hrow⟩
    have hg : g < q := by
      by_contra h
      have := Nat.mul_le_mul_right rowGroupSize (Nat.le_of_not_lt h)
      omega
    refine ⟨hg, ?_⟩
    split_ifs with hlastg
    · rw [← hlastg]
      omega
    · exact ho

/-- `new` selects the rows of the file. -/
lemma mem_sel_new {rowGroupSize : ℕ} (hrgs : 0 < rowGroupSize) (totalRowCount : ℕ)
    {p : ℕ × ℕ} :
    p ∈ (new rowGroupSize totalRowCount).sel ↔
      p.2 < rowGroupSize ∧ p.1 * rowGroupSize + p.2 < totalRowCount := by
  rw [sel, new]
  dsimp only
  rw [selOf_ofList (by simpa [Function.comp_def] using List.nodup_range), mem_selOf,
    ← lt_rowGroupSize_iff hrgs]
  simp [RowSelectionWithCount.ofSelection]

/-- `new` counts the rows of the file, each once. -/
lemma rowCount_new {rowGroupSize : ℕ} (hrgs : 0 < rowGroupSize) (totalRowCount : ℕ) :
    (new rowGroupSize totalRowCount).rowCount = (new rowGroupSize totalRowCount).sel.card := by
  -- the rows of the file, numbered in order, are the pairs of their group and offset
  have hsel : (new rowGroupSize totalRowCount).sel =
      (Finset.range totalRowCount).image fun i => (i / rowGroupSize, i % rowGroupSize) := by
    ext p
    rw [mem_sel_new hrgs, Finset.mem_image]
    constructor
    · rintro ⟨ho, hrow⟩
      refine ⟨p.1 * rowGroupSize + p.2, Finset.mem_range.mpr hrow, ?_⟩
      rw [Nat.add_comm, Nat.add_mul_div_right _ _ hrgs, Nat.div_eq_of_lt ho, Nat.zero_add,
        Nat.add_mul_mod_self_right, Nat.mod_eq_of_lt ho]
    · rintro ⟨i, hi, rfl⟩
      have hdiv := Nat.div_add_mod i rowGroupSize
      rw [Finset.mem_range] at hi
      refine ⟨Nat.mod_lt _ hrgs, ?_⟩
      dsimp only
      rw [Nat.mul_comm]
      omega
  have hinj : Function.Injective fun i => (i / rowGroupSize, i % rowGroupSize) := by
    intro i j h
    rw [Prod.mk.injEq] at h
    rw [← Nat.div_add_mod i rowGroupSize, ← Nat.div_add_mod j rowGroupSize, h.1, h.2]
  rw [hsel, Finset.card_image_of_injective _ hinj, Finset.card_range]
  rfl

/-- A later segment of the same row group begins where an earlier one ends, or later. -/
lemma segment_ranges_apart {rowGroupSize segmentRowCount s s' : ℕ} (h : s < s')
    (hq : s * segmentRowCount / rowGroupSize = s' * segmentRowCount / rowGroupSize) :
    min (s * segmentRowCount % rowGroupSize + segmentRowCount) rowGroupSize ≤
      s' * segmentRowCount % rowGroupSize := by
  have h1 := Nat.div_add_mod (s * segmentRowCount) rowGroupSize
  have h2 := Nat.div_add_mod (s' * segmentRowCount) rowGroupSize
  have h3 : s * segmentRowCount + segmentRowCount ≤ s' * segmentRowCount := by
    rw [← Nat.succ_mul]
    exact Nat.mul_le_mul_right _ h
  rw [hq] at h1
  exact min_le_of_left_le (by omega)

/-- With segments that tile the row groups, an offset lies in the range of a segment exactly
when the segment is the one of its row. -/
lemma segment_range_iff {rowGroupSize segmentRowCount segId g o : ℕ} (hrgs : 0 < rowGroupSize)
    (hdvd : segmentRowCount ∣ rowGroupSize) :
    (segId * segmentRowCount / rowGroupSize = g ∧ segId * segmentRowCount % rowGroupSize ≤ o ∧
      o < min (segId * segmentRowCount % rowGroupSize + segmentRowCount) rowGroupSize) ↔
    (o < rowGroupSize ∧ (g * rowGroupSize + o) / segmentRowCount = segId) := by
  obtain ⟨k, hk⟩ := hdvd
  have hsrc : 0 < segmentRowCount := Nat.pos_of_ne_zero fun h => by simp [h] at hk; omega
  have hdiv := Nat.div_add_mod (segId * segmentRowCount) rowGroupSize
  constructor
  · rintro ⟨rfl, hlo, hhi⟩
    refine ⟨lt_of_lt_of_le hhi (min_le_right _ _), Nat.div_eq_of_lt_le ?_ ?_⟩
    · rw [Nat.mul_comm] at hdiv
      omega
    · rw [Nat.succ_mul, Nat.mul_comm (segId * segmentRowCount / rowGroupSize)]
      omega
  · rintro ⟨ho, rfl⟩
    -- the segment of the row begins at the start of the row's block of `segmentRowCount` rows
    have hoff := Nat.div_add_mod o segmentRowCount
    have hmod := Nat.mod_lt o hsrc
    have hseg : (g * rowGroupSize + o) / segmentRowCount * segmentRowCount =
        g * rowGroupSize + segmentRowCount * (o / segmentRowCount) := by
      rw [hk, show g * (segmentRowCount * k) + o = o + segmentRowCount * (g * k) by ring,
        Nat.add_mul_div_left _ _ hsrc]
      ring
    have hle : segmentRowCount * (o / segmentRowCount) ≤ o := by omega
    rw [hseg]
    have hq : (g * rowGroupSize + segmentRowCount * (o / segmentRowCount)) / rowGroupSize = g := by
      refine Nat.div_eq_of_lt_le (by omega) ?_
      rw [Nat.succ_mul]
      omega
    have hr : (g * rowGroupSize + segmentRowCount * (o / segmentRowCount)) % rowGroupSize =
        segmentRowCount * (o / segmentRowCount) := by
      rw [Nat.add_comm, Nat.mul_comm g, Nat.add_mul_mod_self_left, Nat.mod_eq_of_lt (by omega)]
    rw [hq, hr]
    exact ⟨rfl, hle, lt_min (by omega) ho⟩

/-- `from_inverted_index_apply_output` counts what it selects, and with segments that tile the
row groups it selects the offsets below the row group size whose segment matched. -/
lemma fromInvertedIndexApplyOutput_spec (rowGroupSize numRowGroups : ℕ)
    (applyOutput : InvertedIndex.ApplyOutput) :
    (fromInvertedIndexApplyOutput rowGroupSize numRowGroups applyOutput).rowCount =
      (fromInvertedIndexApplyOutput rowGroupSize numRowGroups applyOutput).sel.card ∧
    (0 < rowGroupSize → applyOutput.segmentRowCount ∣ rowGroupSize → ∀ p,
      p ∈ (fromInvertedIndexApplyOutput rowGroupSize numRowGroups applyOutput).sel ↔
        p.2 < rowGroupSize ∧ (p.1 * rowGroupSize + p.2) / applyOutput.segmentRowCount ∈
          applyOutput.matchedSegmentIds.ones) := by
  set src := applyOutput.segmentRowCount
  set ranges := applyOutput.matchedSegmentIds.iterOnes.map fun segId =>
    (segId * src / rowGroupSize,
      (segId * src % rowGroupSize, min (segId * src % rowGroupSize + src) rowGroupSize))
    with hranges
  set chunks := Grouping.chunkBy Prod.fst ranges
  set entries := chunks.map fun c => (c.1, RowSelectionWithCount.ofSelection
    (rowSelectionFromRowRanges (c.2.map Prod.snd) rowGroupSize)) with hentries
  have heq : fromInvertedIndexApplyOutput rowGroupSize numRowGroups applyOutput =
      ofEntries entries numRowGroups := rfl
  have hsorted := applyOutput.matchedSegmentIds.pairwise_lt_iterOnes
  -- the segments come in order, so their row groups do
  have hchunks : (chunks.map Prod.fst).Nodup := by
    have hle : ranges.Pairwise fun a b => a.1 ≤ b.1 := List.pairwise_map.mpr
      (hsorted.imp fun h => Nat.div_le_div_right (Nat.mul_le_mul_right _ h.le))
    have hlt : chunks.Pairwise fun c c' => c.1 < c'.1 := Grouping.pairwise_chunkBy hle
    exact (List.pairwise_map.mpr hlt).imp ne_of_lt
  have hkeys : (entries.map Prod.fst).Nodup := by
    simpa [entries, List.map_map, Function.comp_def] using hchunks
  rw [heq]
  refine ⟨rowCount_ofEntries hkeys _, fun hrgs hdvd p => ?_⟩
  rw [sel_ofEntries hkeys, hentries]
  simp only [mem_selOf_map]
  -- within a row group the ranges of the segments are apart
  have hapart : ranges.Pairwise fun x y => x.1 = y.1 → x.2.2 ≤ y.2.1 :=
    List.pairwise_map.mpr (hsorted.imp fun h hq => segment_ranges_apart h hq)
  calc (∃ c ∈ chunks, c.1 = p.1 ∧
          (rowSelectionFromRowRanges (c.2.map Prod.snd) rowGroupSize).selects p.2 = true)
      ↔ ∃ c ∈ chunks, c.1 = p.1 ∧ ∃ x ∈ c.2, x.2.1 ≤ p.2 ∧ p.2 < x.2.2 := by
        refine exists_congr fun c => and_congr_right fun hc => and_congr_right fun _ => ?_
        have hsub := Grouping.sublist_of_mem_chunkBy hc
        have hkey := (Grouping.mem_chunkBy hc).2
        have hrange : ∀ x ∈ c.2, x.2.1 ≤ x.2.2 ∧ x.2.2 ≤ rowGroupSize := by
          intro x hx
          obtain ⟨segId, -, rfl⟩ := List.mem_map.mp (hsub.subset hx)
          exact ⟨le_min (Nat.le_add_right _ _) (Nat.mod_lt _ hrgs).le, min_le_right _ _⟩
        have hchain : (c.2.map Prod.snd).IsChain fun r r' => r.2 ≤ r'.1 :=
          (List.pairwise_map.mpr ((hapart.sublist hsub).imp_of_mem
            fun ha hb h => h ((hkey _ ha).trans (hkey _ hb).symm))).isChain
        have hwf : ∀ r ∈ c.2.map Prod.snd, r.1 ≤ r.2 := by
          intro r hr
          obtain ⟨x, hx, rfl⟩ := List.mem_map.mp hr
          exact (hrange x hx).1
        have hbound : ∀ r ∈ c.2.map Prod.snd, r.2 ≤ rowGroupSize := by
          intro r hr
          obtain ⟨x, hx, rfl⟩ := List.mem_map.mp hr
          exact (hrange x hx).2
        rw [selects_rowSelectionFromRowRanges hwf hchain hbound, decide_eq_true_iff]
        constructor
        · rintro ⟨r, hr, h⟩
          obtain ⟨x, hx, rfl⟩ := List.mem_map.mp hr
          exact ⟨x, hx, h⟩
        · rintro ⟨x, hx, h⟩
          exact ⟨x.2, List.mem_map_of_mem hx, h⟩
    _ ↔ ∃ x ∈ ranges, x.1 = p.1 ∧ x.2.1 ≤ p.2 ∧ p.2 < x.2.2 := Grouping.exists_mem_chunkBy_iff
    _ ↔ ∃ segId ∈ applyOutput.matchedSegmentIds.iterOnes, segId * src / rowGroupSize = p.1 ∧
          segId * src % rowGroupSize ≤ p.2 ∧
          p.2 < min (segId * src % rowGroupSize + src) rowGroupSize := by
        simp [ranges]
    _ ↔ p.2 < rowGroupSize ∧ (p.1 * rowGroupSize + p.2) / src ∈
          applyOutput.matchedSegmentIds.ones := by
        simp only [segment_range_iff hrgs hdvd, Bitmap.mem_iterOnes]
        constructor
        · rintro ⟨segId, hseg, ho, rfl⟩
          exact ⟨ho, hseg⟩
        · rintro ⟨ho, hseg⟩
          exact ⟨_, hseg, ho, rfl⟩

/-- The loop of `group_row_ids_by_row_group` is `chunk_by` on row groups, with the ids read as
offsets in their group. -/
lemma groupRowIdStep_map (rowGroupSize : ℕ) (acc : List (ℕ × List ℕ)) (rowId : ℕ) :
    groupRowIdStep rowGroupSize (acc.map fun c => (c.1, c.2.map (· % rowGroupSize))) rowId =
      (Grouping.chunkStep (· / rowGroupSize) acc rowId).map
        fun c => (c.1, c.2.map (· % rowGroupSize)) := by
  rcases Grouping.chunkStep_cases (· / rowGroupSize) acc rowId with
    ⟨pre, g, hacc, hstep⟩ | ⟨hne, hstep⟩
  · rw [hstep, hacc]
    simp [groupRowIdStep]
  · rw [hstep]
    unfold groupRowIdStep
    split
    · rename_i rgId rowIds hlast
      rw [List.getLast?_map, Option.map_eq_some_iff] at hlast
      obtain ⟨c, hc, hceq⟩ := hlast
      have hkey : rgId ≠ rowId / rowGroupSize := by
        have hfst := congrArg Prod.fst hceq
        dsimp only at hfst
        rw [← hfst]
        exact hne c hc
      simp [hkey]
    · simp

lemma groupRowIdsByRowGroup_eq (rowIds : List ℕ) (rowGroupSize : ℕ) {numRowGroups : ℕ}
    (hn : 0 < numRowGroups) :
    groupRowIdsByRowGroup rowIds rowGroupSize numRowGroups =
      some ((Grouping.chunkBy (· / rowGroupSize) rowIds).map
        fun c => (c.1, c.2.map (· % rowGroupSize))) := by
  rw [groupRowIdsByRowGroup, if_neg (by omega), Grouping.chunkBy]
  congr 1
  -- the two loops go step by step together, from no group
  suffices hfold : ∀ acc : List (ℕ × List ℕ),
      rowIds.foldl (groupRowIdStep rowGroupSize)
        (acc.map fun c => (c.1, c.2.map (· % rowGroupSize))) =
      (rowIds.foldl (Grouping.chunkStep (· / rowGroupSize)) acc).map
        fun c => (c.1, c.2.map (· % rowGroupSize)) from hfold []
  intro acc
  induction rowIds generalizing acc with
  | nil => rfl
  | cons rowId rowIds ih => rw [List.foldl_cons, List.foldl_cons, groupRowIdStep_map, ih]

/-- Within a row group, strictly increasing ids have strictly increasing offsets. -/
lemma pairwise_mod_of_mem_chunkBy {rowGroupSize : ℕ} {rowIds : List ℕ}
    (hsorted : rowIds.Pairwise (· < ·)) {c : ℕ × List ℕ}
    (hc : c ∈ Grouping.chunkBy (· / rowGroupSize) rowIds) :
    (c.2.map (· % rowGroupSize)).Pairwise (· < ·) := by
  have hkey := (Grouping.mem_chunkBy hc).2
  rw [List.pairwise_map]
  refine (hsorted.sublist (Grouping.sublist_of_mem_chunkBy hc)).imp_of_mem ?_
  intro a b ha hb hab
  have hq : a / rowGroupSize = b / rowGroupSize := (hkey a ha).trans (hkey b hb).symm
  have hda := Nat.div_add_mod a rowGroupSize
  have hdb := Nat.div_add_mod b rowGroupSize
  rw [hq] at hda
  omega

/-- With a row group or more, `from_row_ids` answers, counts what it selects, and selects the
rows of the ids. -/
lemma fromRowIds_spec (rowIds : Finset ℕ) (rowGroupSize : ℕ) {numRowGroups : ℕ}
    (hn : 0 < numRowGroups) :
    ∃ s, fromRowIds rowIds rowGroupSize numRowGroups = some s ∧ s.rowCount = s.sel.card ∧
      ∀ p, p ∈ s.sel ↔ ∃ rowId ∈ rowIds, (rowId / rowGroupSize, rowId % rowGroupSize) = p := by
  have hsorted : (rowIds.sort (· ≤ ·)).Pairwise (· < ·) := (Finset.sortedLT_sort rowIds).pairwise
  set chunks := Grouping.chunkBy (· / rowGroupSize) (rowIds.sort (· ≤ ·))
  -- the ids are sorted, so their row groups come in increasing order
  have hchunks : (chunks.map Prod.fst).Nodup := by
    have hle : (rowIds.sort (· ≤ ·)).Pairwise fun a b => a / rowGroupSize ≤ b / rowGroupSize :=
      hsorted.imp fun h => Nat.div_le_div_right h.le
    have hlt : chunks.Pairwise fun c c' => c.1 < c'.1 := Grouping.pairwise_chunkBy hle
    exact (List.pairwise_map.mpr hlt).imp ne_of_lt
  set entries := chunks.map fun c => (c.1, RowSelectionWithCount.ofSelection
    (rowSelectionFromSortedRowIds (c.2.map (· % rowGroupSize)) rowGroupSize)) with hentries
  have hkeys : (entries.map Prod.fst).Nodup := by
    simpa [entries, List.map_map, Function.comp_def] using hchunks
  have heq : fromRowIds rowIds rowGroupSize numRowGroups =
      some (ofEntries entries numRowGroups) := by
    simp [fromRowIds, groupRowIdsByRowGroup_eq _ _ hn, entries, Function.comp_def]
    rfl
  refine ⟨_, heq, rowCount_ofEntries hkeys _, fun p => ?_⟩
  rw [sel_ofEntries hkeys, hentries]
  simp only [mem_selOf_map]
  calc (∃ c ∈ chunks, c.1 = p.1 ∧ (rowSelectionFromSortedRowIds (c.2.map (· % rowGroupSize))
          rowGroupSize).selects p.2 = true)
      ↔ ∃ c ∈ chunks, c.1 = p.1 ∧ ∃ rowId ∈ c.2, rowId % rowGroupSize = p.2 := by
        refine exists_congr fun c => and_congr_right fun hc => and_congr_right fun _ => ?_
        rw [selects_rowSelectionFromSortedRowIds _ (pairwise_mod_of_mem_chunkBy hsorted hc),
          decide_eq_true_iff, List.mem_map]
    _ ↔ ∃ rowId ∈ rowIds.sort (· ≤ ·), rowId / rowGroupSize = p.1 ∧
          rowId % rowGroupSize = p.2 := Grouping.exists_mem_chunkBy_iff
    _ ↔ ∃ rowId ∈ rowIds, (rowId / rowGroupSize, rowId % rowGroupSize) = p := by
        simp only [Finset.mem_sort, Prod.ext_iff]

/-- Over distinct row groups, `from_row_ranges` counts what it selects, and over ranges as it
assumes them it selects their union. -/
lemma fromRowRanges_spec (rowRanges : List (ℕ × List (ℕ × ℕ))) (rowGroupSize : ℕ)
    (hnodup : (rowRanges.map Prod.fst).Nodup) :
    (fromRowRanges rowRanges rowGroupSize).rowCount =
      (fromRowRanges rowRanges rowGroupSize).sel.card ∧
    ((∀ g ∈ rowRanges, RangesWithin g.2 rowGroupSize) → ∀ p,
      p ∈ (fromRowRanges rowRanges rowGroupSize).sel ↔
        ∃ g ∈ rowRanges, g.1 = p.1 ∧ ∃ r ∈ g.2, r.1 ≤ p.2 ∧ p.2 < r.2) := by
  set entries := rowRanges.map fun group => (group.1, RowSelectionWithCount.ofSelection
    (rowSelectionFromRowRanges group.2 rowGroupSize)) with hentries
  have hkeys : (entries.map Prod.fst).Nodup := by
    simpa [entries, List.map_map, Function.comp_def] using hnodup
  have hsel : (fromRowRanges rowRanges rowGroupSize).sel = selOf entries := selOf_ofList hkeys
  refine ⟨?_, fun hwithin p => ?_⟩
  · rw [hsel, card_selOf hkeys]
    rfl
  · rw [hsel, hentries]
    simp only [mem_selOf_map]
    refine exists_congr fun g => and_congr_right fun hg => and_congr_right fun _ => ?_
    obtain ⟨hwf, hchain, hbound⟩ := hwithin g hg
    rw [selects_rowSelectionFromRowRanges hwf hchain hbound, decide_eq_true_iff]

/-- `intersect` counts what it selects, and selects the rows both selections select. -/
lemma intersect_spec (self other : RowGroupSelection) :
    (self.intersect other).rowCount = (self.intersect other).sel.card ∧
      (self.intersect other).sel = self.sel ∩ other.sel := by
  unfold intersect sel
  dsimp only
  -- the entries keep the row groups of `other`, in order
  rw [selOf_ofList (SortedMap.sorted_filterMap other.sorted ?hkey).nodup_keys,
    card_selOf (SortedMap.sorted_filterMap other.sorted ?hkey).nodup_keys]
  case hkey =>
    intro x y h
    obtain ⟨z, -, h⟩ := Option.bind_eq_some_iff.mp h
    split_ifs at h
    cases h
    rfl
  refine ⟨rfl, ?_⟩
  ext p
  rw [Finset.mem_inter, mem_selOf, mem_selOf, mem_selOf]
  simp only [List.mem_filterMap, Option.bind_eq_some_iff]
  constructor
  · rintro ⟨z, ⟨x, hx, y, hy, hz⟩, hsel⟩
    split_ifs at hz
    obtain ⟨hkey, rfl⟩ := Prod.mk.inj (Option.some.inj hz)
    rw [RowSelectionWithCount.ofSelection_selection, selects_intersectRowSelections,
      Bool.and_eq_true] at hsel
    rw [← hkey]
    exact ⟨⟨y, SortedMap.mem_of_get_eq_some hy, hsel.2⟩, ⟨x.2, hx, hsel.1⟩⟩
  · rintro ⟨⟨y, hy, hys⟩, ⟨x, hx, hxs⟩⟩
    have hsel : (intersectRowSelections x.selection y.selection).selects p.2 = true := by
      rw [selects_intersectRowSelections, hxs, hys]
      rfl
    refine ⟨_, ⟨(p.1, x), hx, y, (SortedMap.get_eq_some_iff self.sorted).mpr hy, ?_⟩,
      by rwa [RowSelectionWithCount.ofSelection_selection]⟩
    rw [if_pos (RowSelection.rowCount_pos_of_selects hsel)]

/-! ## The row groups of a selection -/

lemma containsRowGroup_iff {s : RowGroupSelection} {rowGroupId : ℕ} :
    s.containsRowGroup rowGroupId = true ↔ ∃ x, (rowGroupId, x) ∈ s.selectionInRg := by
  rw [containsRowGroup, Option.isSome_iff_exists]
  exact exists_congr fun x => SortedMap.get_eq_some_iff s.sorted

lemma containsNonEmptyRowGroup_iff {s : RowGroupSelection} {rowGroupId : ℕ} :
    s.containsNonEmptyRowGroup rowGroupId = true ↔
      ∃ x, (rowGroupId, x) ∈ s.selectionInRg ∧ 0 < x.rowCount := by
  unfold containsNonEmptyRowGroup
  cases hget : SortedMap.get compare rowGroupId s.selectionInRg with
  | none =>
    simp only [Option.map_none, Option.getD_none, Bool.false_eq_true, false_iff, not_exists,
      not_and]
    intro x hx
    rw [(SortedMap.get_eq_some_iff s.sorted).mpr hx] at hget
    cases hget
  | some x =>
    have hx := (SortedMap.get_eq_some_iff s.sorted).mp hget
    simp only [Option.map_some, Option.getD_some, decide_eq_true_eq]
    constructor
    · exact fun h => ⟨x, hx, h⟩
    · rintro ⟨y, hy, hpos⟩
      have hxy := s.sorted.eq_of_fst_eq hx hy rfl
      rw [Prod.mk.injEq] at hxy
      rwa [hxy.2]

/-- `concat` of a selection whose row groups `self` does not have adds its entries. -/
lemma concat_spec {self other : RowGroupSelection}
    (hdisj : ∀ e ∈ other.selectionInRg, self.containsRowGroup e.1 = false) :
    ∃ u, self.concat other = some u ∧
      ∀ e, e ∈ u.selectionInRg ↔ e ∈ self.selectionInRg ∨ e ∈ other.selectionInRg := by
  have hnodup := other.sorted.nodup_keys
  unfold RowGroupSelection.concat
  generalize other.selectionInRg = l at hdisj hnodup ⊢
  induction l generalizing self with
  | nil => exact ⟨self, rfl, by simp⟩
  | cons e l ih =>
    rw [List.map_cons, List.nodup_cons] at hnodup
    have hget : SortedMap.get compare e.1 self.selectionInRg = none :=
      Option.not_isSome_iff_eq_none.mp (by simpa [containsRowGroup] using hdisj e List.mem_cons_self)
    have hkey := SortedMap.not_mem_keys_of_get_eq_none self.sorted hget
    -- the first entry is inserted, and the rest is still new to the map
    obtain ⟨u, hu, hmem⟩ := @ih ⟨SortedMap.insert compare e.1 e.2 self.selectionInRg,
        self.rowCount + e.2.rowCount, self.selectorLen + e.2.selectorLen,
        SortedMap.sorted_insert self.sorted⟩ (fun e' he' => by
      have hne : e'.1 ≠ e.1 := fun h => hnodup.1 (h ▸ List.mem_map_of_mem he')
      have hself := hdisj e' (List.mem_cons_of_mem _ he')
      simp only [containsRowGroup, Option.isSome_eq_false_iff, Option.isNone_iff_eq_none] at hself ⊢
      apply SortedMap.get_eq_none_of_not_mem_keys
      rw [SortedMap.mem_keys_insert]
      rintro (h | h)
      · exact hne h
      · exact SortedMap.not_mem_keys_of_get_eq_none self.sorted hself h) hnodup.2
    refine ⟨u, ?_, fun x => ?_⟩
    · rw [List.foldlM_cons, hget]
      exact hu
    · rw [hmem, SortedMap.mem_insert_iff self.sorted, List.mem_cons]
      constructor
      · rintro ((rfl | ⟨hx, -⟩) | hx)
        · exact .inr (.inl rfl)
        · exact .inl hx
        · exact .inr (.inr hx)
      · rintro (hx | rfl | hx)
        · exact .inl (.inr ⟨hx, fun h => hkey (h ▸ List.mem_map_of_mem hx)⟩)
        · exact .inl (.inl rfl)
        · exact .inr hx

/-- `intersect` only reads the row groups that `self` selects rows of: a selection whose
entries are entries of `F`, and which has every entry of `F` at such a row group, intersects
`self` as `F` does. -/
lemma intersect_congr {self R F : RowGroupSelection}
    (hsub : ∀ e ∈ R.selectionInRg, e ∈ F.selectionInRg)
    (hkept : ∀ e ∈ F.selectionInRg, self.containsNonEmptyRowGroup e.1 = true → e ∈ R.selectionInRg) :
    self.intersect R = self.intersect F := by
  unfold intersect
  rw [SortedMap.filterMap_eq_of_subset R.sorted F.sorted ?hkey hsub ?hkept]
  case hkey =>
    intro x y h
    obtain ⟨z, -, h⟩ := Option.bind_eq_some_iff.mp h
    dsimp only at h
    split_ifs at h
    cases h
    rfl
  case hkept =>
    intro x hx hsome
    obtain ⟨y, hy⟩ := Option.isSome_iff_exists.mp hsome
    obtain ⟨z, hz, h⟩ := Option.bind_eq_some_iff.mp hy
    dsimp only at h
    split_ifs at h with hpos
    -- a row both select makes `self`'s selection of the row group non-empty
    obtain ⟨i, hi⟩ := RowSelection.exists_selects_of_rowCount_pos hpos
    rw [selects_intersectRowSelections, Bool.and_eq_true] at hi
    have hz' := (SortedMap.get_eq_some_iff self.sorted).mp hz
    refine hkept x hx (containsNonEmptyRowGroup_iff.mpr ⟨z, hz', ?_⟩)
    rw [z.rowCount_eq]
    exact RowSelection.rowCount_pos_of_selects hi.2

/-- The total row count is the sum of the row groups' counts, as the constructors sum it and the
operations keep it. -/
def Consistent (s : RowGroupSelection) : Prop :=
  s.rowCount = (s.selectionInRg.map (·.2.rowCount)).sum

/-- A consistent selection counts the rows it selects. -/
lemma consistent_iff {s : RowGroupSelection} : s.Consistent ↔ s.rowCount = s.sel.card := by
  rw [Consistent, card_sel]

/-- Taking out the row groups that select nothing, then the first that selects a row, with its
count, keeps the total the sum of the rest. -/
lemma consistent_popFirstLoop (l : List (ℕ × RowSelectionWithCount)) (rowCount selectorLen : ℕ)
    (h : SortedMap.Sorted l) (hrc : rowCount = (l.map (·.2.rowCount)).sum) :
    (popFirstLoop l rowCount selectorLen h).2.Consistent := by
  induction l generalizing rowCount with
  | nil => exact hrc
  | cons e l ih =>
    obtain ⟨g, x⟩ := e
    rw [List.map_cons, List.sum_cons] at hrc
    dsimp only at hrc
    unfold popFirstLoop
    split_ifs with hpos
    · show rowCount - x.rowCount = (l.map (·.2.rowCount)).sum
      omega
    · exact ih _ _ (by omega)

lemma Consistent.popFirst {s : RowGroupSelection} (hs : s.Consistent) :
    s.popFirst.2.Consistent :=
  consistent_popFirstLoop _ _ _ _ hs

lemma Consistent.removeRowGroup {s : RowGroupSelection} (hs : s.Consistent) (rowGroupId : ℕ) :
    (s.removeRowGroup rowGroupId).Consistent := by
  unfold RowGroupSelection.removeRowGroup
  split
  · exact hs
  · rename_i x hget
    have hperm := SortedMap.perm_erase s.sorted (SortedMap.mem_of_get_eq_some hget)
    have hsum := (hperm.map (·.2.rowCount)).sum_eq
    rw [List.map_cons, List.sum_cons] at hsum
    dsimp only at hsum
    show s.rowCount - x.rowCount =
      ((SortedMap.erase compare rowGroupId s.selectionInRg).map (·.2.rowCount)).sum
    unfold Consistent at hs
    omega

/-- `concat` adds the count of each row group it adds, so it keeps the total of `self`
consistent whatever `other`'s total is. -/
lemma Consistent.concat {s other u : RowGroupSelection} (hs : s.Consistent)
    (h : s.concat other = some u) : u.Consistent := by
  unfold RowGroupSelection.concat at h
  generalize other.selectionInRg = l at h
  induction l generalizing s with
  | nil =>
    cases h
    exact hs
  | cons e l ih =>
    rw [List.foldlM_cons] at h
    obtain ⟨s', hstep, h⟩ := Option.bind_eq_some_iff.mp h
    split_ifs at hstep with hget
    cases hstep
    refine ih ?_ h
    -- the row group is new, so the map gains one entry
    have hnone := Option.not_isSome_iff_eq_none.mp hget
    have hperm := SortedMap.perm_insert (v := e.2) s.sorted
      (SortedMap.not_mem_keys_of_get_eq_none s.sorted hnone)
    have hsum := (hperm.map (·.2.rowCount)).sum_eq
    rw [List.map_cons, List.sum_cons] at hsum
    dsimp only at hsum
    show s.rowCount + e.2.rowCount =
      ((SortedMap.insert compare e.1 e.2 s.selectionInRg).map (·.2.rowCount)).sum
    unfold Consistent at hs
    omega

/-- The selections the constructors and operations of the source build: `from_row_ranges` over
distinct row groups, and `concat` where it does not panic. -/
inductive Built : RowGroupSelection → Prop
  | new {rowGroupSize : ℕ} (totalRowCount : ℕ) (hrgs : 0 < rowGroupSize) :
      Built (RowGroupSelection.new rowGroupSize totalRowCount)
  | fromInvertedIndexApplyOutput (rowGroupSize numRowGroups : ℕ)
      (applyOutput : InvertedIndex.ApplyOutput) :
      Built (RowGroupSelection.fromInvertedIndexApplyOutput rowGroupSize numRowGroups applyOutput)
  | fromRowIds {s : RowGroupSelection} {rowIds : Finset ℕ} {rowGroupSize numRowGroups : ℕ}
      (h : RowGroupSelection.fromRowIds rowIds rowGroupSize numRowGroups = some s) : Built s
  | fromRowRanges {rowRanges : List (ℕ × List (ℕ × ℕ))} (rowGroupSize : ℕ)
      (hnodup : (rowRanges.map Prod.fst).Nodup) :
      Built (RowGroupSelection.fromRowRanges rowRanges rowGroupSize)
  | intersect (self other : RowGroupSelection) : Built (self.intersect other)
  | popFirst {s : RowGroupSelection} : Built s → Built s.popFirst.2
  | removeRowGroup {s : RowGroupSelection} (rowGroupId : ℕ) :
      Built s → Built (s.removeRowGroup rowGroupId)
  | concat {s other u : RowGroupSelection} : Built s → s.concat other = some u → Built u

/-- What the source builds keeps its total the sum of its row groups' counts. -/
lemma Built.consistent {s : RowGroupSelection} (h : Built s) : s.Consistent := by
  induction h with
  | new totalRowCount hrgs => exact consistent_iff.mpr (rowCount_new hrgs totalRowCount)
  | fromInvertedIndexApplyOutput rowGroupSize numRowGroups applyOutput =>
    exact consistent_iff.mpr (fromInvertedIndexApplyOutput_spec _ _ _).1
  | @fromRowIds s rowIds rowGroupSize numRowGroups h =>
    -- without a row group it would have panicked
    have hn : 0 < numRowGroups := by
      by_contra h0
      simp [RowGroupSelection.fromRowIds, groupRowIdsByRowGroup, Nat.eq_zero_of_not_pos h0] at h
    obtain ⟨s', hs', hrc, -⟩ := fromRowIds_spec rowIds rowGroupSize hn
    rw [h, Option.some.injEq] at hs'
    rw [hs']
    exact consistent_iff.mpr hrc
  | fromRowRanges rowGroupSize hnodup =>
    exact consistent_iff.mpr (fromRowRanges_spec _ _ hnodup).1
  | intersect self other => exact consistent_iff.mpr (intersect_spec self other).1
  | popFirst _ ih => exact ih.popFirst
  | removeRowGroup rowGroupId _ ih => exact ih.removeRowGroup rowGroupId
  | concat _ h ih => exact ih.concat h

/-- What each constructor of `RowGroupSelection` selects, for row groups of a positive size:
`new` the rows of the file, `from_row_ids` the rows of the ids, `from_inverted_index_apply_output`
with segments that tile the row groups the offsets whose segment matched (cut at the row group
size, not at the end of the file), `from_row_ranges` over distinct row groups and ranges as it
assumes them their union, and `intersect` the rows both select; and every selection built by the
constructors and operations counts the rows it selects. -/
theorem rowGroupSelection_sel {rowGroupSize : ℕ} (hrgs : 0 < rowGroupSize) :
    (∀ totalRowCount (p : ℕ × ℕ), p ∈ (new rowGroupSize totalRowCount).sel ↔
      p.2 < rowGroupSize ∧ p.1 * rowGroupSize + p.2 < totalRowCount) ∧
    (∀ (rowIds : Finset ℕ) numRowGroups, 0 < numRowGroups →
      ∃ s, fromRowIds rowIds rowGroupSize numRowGroups = some s ∧
        ∀ p, p ∈ s.sel ↔ ∃ rowId ∈ rowIds, (rowId / rowGroupSize, rowId % rowGroupSize) = p) ∧
    (∀ numRowGroups (applyOutput : InvertedIndex.ApplyOutput),
      applyOutput.segmentRowCount ∣ rowGroupSize → ∀ p,
        p ∈ (fromInvertedIndexApplyOutput rowGroupSize numRowGroups applyOutput).sel ↔
          p.2 < rowGroupSize ∧ (p.1 * rowGroupSize + p.2) / applyOutput.segmentRowCount ∈
            applyOutput.matchedSegmentIds.ones) ∧
    (∀ rowRanges : List (ℕ × List (ℕ × ℕ)), (rowRanges.map Prod.fst).Nodup →
      (∀ g ∈ rowRanges, RangesWithin g.2 rowGroupSize) → ∀ p,
        p ∈ (fromRowRanges rowRanges rowGroupSize).sel ↔
          ∃ g ∈ rowRanges, g.1 = p.1 ∧ ∃ r ∈ g.2, r.1 ≤ p.2 ∧ p.2 < r.2) ∧
    (∀ s t : RowGroupSelection, (s.intersect t).sel = s.sel ∩ t.sel) ∧
    (∀ s, Built s → s.rowCount = s.sel.card) := by
  refine ⟨fun totalRowCount p => mem_sel_new hrgs totalRowCount, ?_, ?_, ?_, ?_, ?_⟩
  · intro rowIds numRowGroups hn
    obtain ⟨s, hs, -, hsel⟩ := fromRowIds_spec rowIds rowGroupSize hn
    exact ⟨s, hs, hsel⟩
  · intro numRowGroups applyOutput hdvd
    exact (fromInvertedIndexApplyOutput_spec rowGroupSize numRowGroups applyOutput).2 hrgs hdvd
  · intro rowRanges hnodup hwithin
    exact (fromRowRanges_spec rowRanges rowGroupSize hnodup).2 hwithin
  · intro s t
    exact (intersect_spec s t).2
  · intro s hs
    exact consistent_iff.mp hs.consistent

theorem rowGroupSelection_sel_eight : 0 < 8 ∧
    ((∀ totalRowCount (p : ℕ × ℕ), p ∈ (new 8 totalRowCount).sel ↔
      p.2 < 8 ∧ p.1 * 8 + p.2 < totalRowCount) ∧
    (∀ (rowIds : Finset ℕ) numRowGroups, 0 < numRowGroups →
      ∃ s, fromRowIds rowIds 8 numRowGroups = some s ∧
        ∀ p, p ∈ s.sel ↔ ∃ rowId ∈ rowIds, (rowId / 8, rowId % 8) = p) ∧
    (∀ numRowGroups (applyOutput : InvertedIndex.ApplyOutput),
      applyOutput.segmentRowCount ∣ 8 → ∀ p,
        p ∈ (fromInvertedIndexApplyOutput 8 numRowGroups applyOutput).sel ↔
          p.2 < 8 ∧ (p.1 * 8 + p.2) / applyOutput.segmentRowCount ∈
            applyOutput.matchedSegmentIds.ones) ∧
    (∀ rowRanges : List (ℕ × List (ℕ × ℕ)), (rowRanges.map Prod.fst).Nodup →
      (∀ g ∈ rowRanges, RangesWithin g.2 8) → ∀ p,
        p ∈ (fromRowRanges rowRanges 8).sel ↔
          ∃ g ∈ rowRanges, g.1 = p.1 ∧ ∃ r ∈ g.2, r.1 ≤ p.2 ∧ p.2 < r.2) ∧
    (∀ s t : RowGroupSelection, (s.intersect t).sel = s.sel ∩ t.sel) ∧
    (∀ s, Built s → s.rowCount = s.sel.card)) :=
  ⟨by decide, rowGroupSelection_sel (by decide)⟩

end RowGroupSelection

end Greptime
