import Greptime.Compaction.Run
import Greptime.Foundations.Sweep
import Greptime.Time.Timestamp

/-!
# Time window compaction picking (`mito2::compaction::twcs`)

`TwcsPicker` assigns the region's files that are not being compacted to time windows, by the
ceiling of their largest timestamp (`assign_to_windows`), and then picks, per window, the
files to merge (`build_output`).  A window's files are grouped by the sequence they were
written with, since files written by one compaction belong together (`FileGroup`).

Whether a compaction may drop delete markers (`filter_deleted`) is decided per window: the
window must not overlap another window, and its files must form at most two sorted runs.
The inputs, however, are only part of the window's files: `reduce_runs` keeps the items of
two runs that overlap each other *inclusively*, while the runs were formed with the *strict*
`Ranged::overlap`.  A file that only touches an input at one end is then left out of the
compaction, and dropping a delete marker at that shared timestamp makes an older put in the
left-out file visible again: `twcs_filterDeleted_leaves_touching_file`.

`assign_to_windows` keys each file by the ceiling of its last second to the window size, or
by `i64::MIN` when that ceiling does not fit in an `i64`.  It then marks windows overlapping with
one sweep over them, sorted by start, that compares each window with the hull of the windows
before it and marks it and its predecessor on a hit.  For files with non-empty ranges, a window
is marked exactly when it overlaps another window, and every file not being compacted is in
exactly one window, the one of its key: `assignToWindows_marks_overlaps`.  The argument is the
library's `Sweep.marks_eq_map`, reached through the loop's invariant `WindowsOf`.

The time range of a file is in the region's time index unit, which all files of a region
share; comparing two of its bounds is comparing their values.
-/

namespace Greptime

/-- The data of `FileHandle` the picker reads. -/
structure FileHandle where
  fileId : ℕ
  /-- `time_range`: inclusive bounds, in the region's time index unit. -/
  timeRange : I64 × I64
  size : ℕ
  numRows : ℕ
  /-- `meta.sequence`: `None`, or the non-zero sequence of the flush or compaction. -/
  sequence : Option ℕ
  compacting : Bool
  deriving DecidableEq

/-- `FileGroup`: files written by one task, with their total size and hull range. -/
structure FileGroup where
  files : List FileHandle
  size : ℕ
  numRows : ℕ
  minTimestamp : I64
  maxTimestamp : I64
  deriving DecidableEq

namespace FileGroup

/-- `FileGroup::new_with_file`. -/
def newWithFile (file : FileHandle) : FileGroup :=
  ⟨[file], file.size, file.numRows, file.timeRange.1, file.timeRange.2⟩

/-- `FileGroup::add_file`. -/
def addFile (g : FileGroup) (file : FileHandle) : FileGroup :=
  ⟨g.files ++ [file], g.size + file.size, g.numRows + file.numRows,
    min g.minTimestamp file.timeRange.1, max g.maxTimestamp file.timeRange.2⟩

instance : Item FileGroup I64 where
  range g := (g.minTimestamp, g.maxTimestamp)
  size g := g.size

end FileGroup

/-- `Window`: the hull of its files' ranges and its file groups by sequence.  The source keeps
the groups in a `HashMap`; the model keeps them in the order of their first file, which only
decides the order of items with equal ranges in `find_sorted_runs`. -/
structure Window where
  start : I64
  stop : I64
  files : List (Option ℕ × FileGroup)
  timeWindow : I64
  overlapping : Bool
  deriving DecidableEq

namespace Window

/-- `Window::new_with_file`. -/
def newWithFile (file : FileHandle) : Window :=
  ⟨file.timeRange.1, file.timeRange.2, [(file.sequence, .newWithFile file)], I64.wrap 0, false⟩

/-- `Window::add_file`: widens the window and adds the file to the group of its sequence. -/
def addFile (w : Window) (file : FileHandle) : Window :=
  let files := if w.files.any (·.1 = file.sequence) then
      w.files.map fun e => if e.1 = file.sequence then (e.1, e.2.addFile file) else e
    else w.files ++ [(file.sequence, .newWithFile file)]
  { w with start := min w.start file.timeRange.1, stop := max w.stop file.timeRange.2, files }

/-- `Window::range`. -/
def range (w : Window) : I64 × I64 := (w.start, w.stop)

end Window

/-- `sst::file::overlaps`: two inclusive ranges intersect. -/
def overlaps (l r : I64 × I64) : Bool :=
  let (l, r) := if l.1 ≤ r.1 then (l, r) else (r, l)
  decide (r.1 ≤ l.2)

/-- When `l` starts first, the ranges miss each other exactly when `l` ends before `r` starts. -/
lemma overlaps_eq_false_iff_of_le {l r : I64 × I64} (h : l.1 ≤ r.1) :
    overlaps l r = false ↔ l.2 < r.1 := by
  simp [overlaps, h]

/-- The window of a file: the ceiling of its largest timestamp, in seconds, to a multiple of
the window size; `i64::MIN` when that overflows.  Converting to seconds cannot fail. -/
def fileTimeWindow (unit : TimeUnit) (timeWindowSize : I64) (file : FileHandle) : I64 :=
  let stop := (Timestamp.mk file.timeRange.2 unit).convertTo .second
  (alignToCeilByBucket (stop.map Timestamp.value |>.getD (I64.wrap 0)) timeWindowSize).getD
    (I64.wrap I64.minValue)

/-- For each window after the first, whether its range overlaps the hull of the windows
before it: the sweep at the end of `assign_to_windows`. -/
def overlapsHull : I64 × I64 → List Window → List Bool
  | _, [] => []
  | current, w :: ws =>
    overlaps current w.range :: overlapsHull (min current.1 w.start, max current.2 w.stop) ws

/-- One file of the loop of `assign_to_windows`: a file not being compacted joins the window
of its time window, which is made for it when it is the first. -/
def assignFile (unit : TimeUnit) (timeWindowSize : I64) (windows : List (I64 × Window))
    (f : FileHandle) : List (I64 × Window) :=
  if f.compacting then windows
  else
    let timeWindow := fileTimeWindow unit timeWindowSize f
    if windows.any (·.1 = timeWindow) then
      windows.map fun e => if e.1 = timeWindow then (e.1, e.2.addFile f) else e
    else windows ++ [(timeWindow, { Window.newWithFile f with timeWindow })]

instance : Ranged Window I64 where
  range := Window.range

/-- The sweep at the end of `assign_to_windows`, over the windows sorted by `(start asc, end
desc)`: a window is marked overlapping when it or its successor overlaps the hull of the
windows before. -/
def markOverlapping (windows : List Window) : List Window :=
  match windows.insertionSort Ranged.SortLe with
  | [] => []
  | first :: rest =>
    let hits := overlapsHull first.range rest
    let flags := List.zipWith (· || ·) (false :: hits) (hits ++ [false])
    List.zipWith (fun w flag => { w with overlapping := w.overlapping || flag }) (first :: rest)
      flags

/-- `assign_to_windows`: the windows of the files not being compacted, keyed and ordered by
their time window, marked by `markOverlapping`. -/
def assignToWindows (unit : TimeUnit) (files : List FileHandle) (timeWindowSize : I64) :
    List (I64 × Window) :=
  let windows := files.foldl (assignFile unit timeWindowSize) []
  ((markOverlapping (windows.map Prod.snd)).map fun w => (w.timeWindow, w)).insertionSort
    (fun a b => a.1 ≤ b.1)

/-! ## The windows `assign_to_windows` builds -/

namespace Window

/-- The files a window holds, group by group. -/
def fileHandles (w : Window) : List FileHandle := w.files.flatMap (·.2.files)

@[simp] lemma fileHandles_newWithFile (f : FileHandle) : (newWithFile f).fileHandles = [f] := by
  simp [fileHandles, newWithFile, FileGroup.newWithFile]

@[simp] lemma timeWindow_addFile (w : Window) (f : FileHandle) :
    (w.addFile f).timeWindow = w.timeWindow := rfl

@[simp] lemma overlapping_addFile (w : Window) (f : FileHandle) :
    (w.addFile f).overlapping = w.overlapping := rfl

lemma start_le_stop_addFile {w : Window} (f : FileHandle) (hw : w.start ≤ w.stop) :
    (w.addFile f).start ≤ (w.addFile f).stop :=
  (min_le_left _ _).trans (hw.trans (le_max_left _ _))

/-- `add_file` adds the file to the group of its sequence, or to a new group. -/
lemma mem_fileHandles_addFile {w : Window} {f f' : FileHandle} :
    f' ∈ (w.addFile f).fileHandles ↔ f' ∈ w.fileHandles ∨ f' = f := by
  simp only [addFile, fileHandles]
  split
  · rename_i hany
    obtain ⟨g, hg, hseq⟩ : ∃ g ∈ w.files, g.1 = f.sequence := by simpa using hany
    simp only [List.mem_flatMap, List.mem_map]
    constructor
    · rintro ⟨_, ⟨e, he, rfl⟩, hf'⟩
      split at hf'
      · -- the group of the file's sequence: its own files and the new one
        simp only [FileGroup.addFile, List.mem_append, List.mem_singleton] at hf'
        exact hf'.imp_left fun h => ⟨e, he, h⟩
      · exact .inl ⟨e, he, hf'⟩
    · rintro (⟨e, he, hf'⟩ | rfl)
      · refine ⟨_, ⟨e, he, rfl⟩, ?_⟩
        split <;> simp [FileGroup.addFile, hf']
      · exact ⟨_, ⟨g, hg, rfl⟩, by simp [hseq, FileGroup.addFile]⟩
  · simp [FileGroup.newWithFile, or_comm]

end Window

/-- What the loop of `assign_to_windows` has built after the files `done`: one window per time
window, each holding its own key, not yet marked, with a range that is not empty, and holding
exactly the files of `done` not being compacted whose time window is its key. -/
structure WindowsOf (unit : TimeUnit) (timeWindowSize : I64) (done : List FileHandle)
    (windows : List (I64 × Window)) : Prop where
  nodup : (windows.map Prod.fst).Nodup
  key : ∀ e ∈ windows, e.2.timeWindow = e.1
  fresh : ∀ e ∈ windows, e.2.overlapping = false
  ranged : ∀ e ∈ windows, e.2.start ≤ e.2.stop
  holds : ∀ e ∈ windows, ∀ f, f ∈ e.2.fileHandles ↔
    f ∈ done ∧ f.compacting = false ∧ fileTimeWindow unit timeWindowSize f = e.1
  present : ∀ f ∈ done, f.compacting = false →
    fileTimeWindow unit timeWindowSize f ∈ windows.map Prod.fst

namespace WindowsOf

variable {unit : TimeUnit} {timeWindowSize : I64} {done : List FileHandle}
  {windows : List (I64 × Window)} {f : FileHandle}

/-- A new file that a window does not take leaves the files it holds as they were. -/
lemma mem_append_and_iff {f' : FileHandle} {P : FileHandle → Prop} (hf : ¬ P f) :
    (f' ∈ done ++ [f] ∧ P f') ↔ (f' ∈ done ∧ P f') := by
  rw [List.mem_append, List.mem_singleton]
  constructor
  · rintro ⟨hdone | rfl, hp⟩
    · exact ⟨hdone, hp⟩
    · exact absurd hp hf
  · rintro ⟨hdone, hp⟩
    exact ⟨.inl hdone, hp⟩

lemma nil : WindowsOf unit timeWindowSize [] [] :=
  ⟨List.nodup_nil, by simp, by simp, by simp, by simp, by simp⟩

/-- A file being compacted is skipped. -/
lemma skip (h : WindowsOf unit timeWindowSize done windows) (hf : f.compacting = true) :
    WindowsOf unit timeWindowSize (done ++ [f]) windows where
  nodup := h.nodup
  key := h.key
  fresh := h.fresh
  ranged := h.ranged
  holds e he f' := by
    rw [h.holds e he]
    exact (mem_append_and_iff (P := fun g => g.compacting = false ∧
      fileTimeWindow unit timeWindowSize g = e.1) (by simp [hf])).symm
  present f' hf' hcomp := by
    rcases List.mem_append.mp hf' with hdone | hnew
    · exact h.present f' hdone hcomp
    · rw [List.mem_singleton.mp hnew, hf] at hcomp
      contradiction

/-- A file joins the window of its time window, which is there already. -/
lemma join (h : WindowsOf unit timeWindowSize done windows) (hcomp : f.compacting = false)
    (hf : f.timeRange.1 ≤ f.timeRange.2)
    (hany : windows.any (·.1 = fileTimeWindow unit timeWindowSize f)) :
    WindowsOf unit timeWindowSize (done ++ [f]) (windows.map fun e =>
      if e.1 = fileTimeWindow unit timeWindowSize f then (e.1, e.2.addFile f) else e) := by
  have hfst : (windows.map fun e => if e.1 = fileTimeWindow unit timeWindowSize f
      then (e.1, e.2.addFile f) else e).map Prod.fst = windows.map Prod.fst := by
    simp only [List.map_map]
    exact List.map_congr_left fun e _ => by
      by_cases he : e.1 = fileTimeWindow unit timeWindowSize f <;> simp [he]
  refine ⟨hfst ▸ h.nodup, ?_, ?_, ?_, ?_, ?_⟩
  · simp only [List.mem_map]
    rintro _ ⟨e, he, rfl⟩
    by_cases hkey : e.1 = fileTimeWindow unit timeWindowSize f <;> simp [hkey, h.key e he]
  · simp only [List.mem_map]
    rintro _ ⟨e, he, rfl⟩
    by_cases hkey : e.1 = fileTimeWindow unit timeWindowSize f <;> simp [hkey, h.fresh e he]
  · simp only [List.mem_map]
    rintro _ ⟨e, he, rfl⟩
    by_cases hkey : e.1 = fileTimeWindow unit timeWindowSize f
    · simpa [hkey] using Window.start_le_stop_addFile f (h.ranged e he)
    · simpa [hkey] using h.ranged e he
  · simp only [List.mem_map]
    rintro _ ⟨e, he, rfl⟩ f'
    by_cases hkey : e.1 = fileTimeWindow unit timeWindowSize f
    · -- the window of the file's time window gains it
      rw [if_pos hkey]
      dsimp only
      rw [Window.mem_fileHandles_addFile, h.holds e he, List.mem_append, List.mem_singleton]
      constructor
      · rintro (⟨hdone, hrest⟩ | rfl)
        · exact ⟨.inl hdone, hrest⟩
        · exact ⟨.inr rfl, hcomp, hkey.symm⟩
      · rintro ⟨hdone | rfl, hrest⟩
        · exact .inl ⟨hdone, hrest⟩
        · exact .inr rfl
    · -- every other window is left as it is, and the file is not of its time window
      rw [if_neg hkey, h.holds e he]
      exact (mem_append_and_iff (P := fun g => g.compacting = false ∧
        fileTimeWindow unit timeWindowSize g = e.1) fun hp => hkey hp.2.symm).symm
  · intro f' hf' hcomp'
    rw [hfst]
    rcases List.mem_append.mp hf' with hdone | hnew
    · exact h.present f' hdone hcomp'
    · rw [List.mem_singleton.mp hnew]
      obtain ⟨e, he, hkey⟩ := List.any_eq_true.mp hany
      exact List.mem_map.mpr ⟨e, he, of_decide_eq_true hkey⟩

/-- A file opens a new window for its time window, which has none yet. -/
lemma create (h : WindowsOf unit timeWindowSize done windows) (hcomp : f.compacting = false)
    (hf : f.timeRange.1 ≤ f.timeRange.2)
    (hnone : ¬ windows.any (·.1 = fileTimeWindow unit timeWindowSize f)) :
    WindowsOf unit timeWindowSize (done ++ [f]) (windows ++
      [(fileTimeWindow unit timeWindowSize f,
        { Window.newWithFile f with timeWindow := fileTimeWindow unit timeWindowSize f })]) := by
  have hnew : fileTimeWindow unit timeWindowSize f ∉ windows.map Prod.fst := by
    simpa using hnone
  -- the new window, and what every field says of it
  set w : Window := { Window.newWithFile f with timeWindow := fileTimeWindow unit timeWindowSize f }
  have hcases : ∀ e ∈ windows ++ [(fileTimeWindow unit timeWindowSize f, w)],
      e ∈ windows ∨ e = (fileTimeWindow unit timeWindowSize f, w) := by
    simp
  refine ⟨?_, ?_, ?_, ?_, ?_, ?_⟩
  · rw [List.map_append, List.nodup_append]
    refine ⟨h.nodup, List.nodup_singleton _, fun a ha b hb hab => ?_⟩
    simp only [List.map_cons, List.map_nil, List.mem_singleton] at hb
    rw [hab, hb] at ha
    exact hnew ha
  · intro e he
    rcases hcases e he with hold | rfl
    · exact h.key e hold
    · rfl
  · intro e he
    rcases hcases e he with hold | rfl
    · exact h.fresh e hold
    · rfl
  · intro e he
    rcases hcases e he with hold | rfl
    · exact h.ranged e hold
    · exact hf
  · intro e he f'
    rcases hcases e he with hold | rfl
    · -- an old window: the new file is not of its time window
      rw [h.holds e hold]
      refine (mem_append_and_iff (P := fun g => g.compacting = false ∧
        fileTimeWindow unit timeWindowSize g = e.1) fun hp => hnew ?_).symm
      rw [hp.2]
      exact List.mem_map_of_mem hold
    · -- the new window holds the new file, and no file before it is of its time window
      show f' ∈ (Window.newWithFile f).fileHandles ↔ _
      rw [Window.fileHandles_newWithFile, List.mem_singleton, List.mem_append, List.mem_singleton]
      constructor
      · rintro rfl
        exact ⟨.inr rfl, hcomp, rfl⟩
      · rintro ⟨hdone | rfl, hcomp', hkey⟩
        · exact absurd (by simpa [hkey] using h.present f' hdone hcomp') hnew
        · rfl
  · intro f' hf' hcomp'
    rw [List.map_append, List.mem_append]
    rcases List.mem_append.mp hf' with hdone | hnew'
    · exact .inl (h.present f' hdone hcomp')
    · rw [List.mem_singleton.mp hnew']
      exact .inr (List.mem_singleton_self _)

/-- One file of the loop keeps what the loop has built. -/
lemma assignFile (h : WindowsOf unit timeWindowSize done windows)
    (hf : f.timeRange.1 ≤ f.timeRange.2) :
    WindowsOf unit timeWindowSize (done ++ [f]) (Greptime.assignFile unit timeWindowSize windows f) := by
  unfold Greptime.assignFile
  by_cases hcomp : f.compacting = true
  · rw [if_pos hcomp]
    exact h.skip hcomp
  · have hcomp' : f.compacting = false := by simpa using hcomp
    rw [if_neg hcomp]
    by_cases hany : windows.any (·.1 = fileTimeWindow unit timeWindowSize f)
    · rw [if_pos hany]
      exact h.join hcomp' hf hany
    · rw [if_neg hany]
      exact h.create hcomp' hf hany

/-- The whole loop, one file after another. -/
lemma foldl_assignFile (h : WindowsOf unit timeWindowSize done windows) (files : List FileHandle)
    (hfiles : ∀ f ∈ files, f.timeRange.1 ≤ f.timeRange.2) :
    WindowsOf unit timeWindowSize (done ++ files)
      (files.foldl (Greptime.assignFile unit timeWindowSize) windows) := by
  induction files generalizing done windows with
  | nil => simpa using h
  | cons f files ih =>
    have hstep := h.assignFile (hfiles f (by simp))
    simpa using ih hstep fun f' hf' => hfiles f' (by simp [hf'])

variable (unit timeWindowSize) in
/-- The loop from no window builds the windows of the files. -/
lemma of_files {files : List FileHandle} (hfiles : ∀ f ∈ files, f.timeRange.1 ≤ f.timeRange.2) :
    WindowsOf unit timeWindowSize files
      (files.foldl (Greptime.assignFile unit timeWindowSize) []) := by
  simpa using WindowsOf.nil.foldl_assignFile files hfiles

end WindowsOf

namespace WindowsOf

variable {unit : TimeUnit} {timeWindowSize : I64} {done : List FileHandle}
  {windows : List (I64 × Window)}

lemma mem_snd (h : WindowsOf unit timeWindowSize done windows) {w : Window}
    (hw : w ∈ windows.map Prod.snd) : (w.timeWindow, w) ∈ windows := by
  obtain ⟨e, he, rfl⟩ := List.mem_map.mp hw
  rwa [h.key e he]

/-- The windows have distinct time windows. -/
lemma nodup_timeWindow (h : WindowsOf unit timeWindowSize done windows) :
    ((windows.map Prod.snd).map Window.timeWindow).Nodup := by
  have hkeys : windows.map (Window.timeWindow ∘ Prod.snd) = windows.map Prod.fst :=
    List.map_congr_left fun e he => h.key e he
  rw [List.map_map, hkeys]
  exact h.nodup

end WindowsOf

/-! ## Marking -/

/-- Whether the range of a window overlaps the range of another window among `windows`. -/
def overlapsAnother (windows : List Window) (w : Window) : Bool :=
  windows.any fun w' => decide (w'.timeWindow ≠ w.timeWindow) && overlaps w.range w'.range

/-- For ranges that are not empty, `overlaps` is the ranges meeting, whichever starts first. -/
lemma overlaps_range_iff_meets {x y : Window} (hx : x.start ≤ x.stop) (hy : y.start ≤ y.stop) :
    overlaps x.range y.range = true ↔ Sweep.Meets Window.start Window.stop x y := by
  unfold overlaps Window.range Sweep.Meets
  by_cases h : x.start ≤ y.start
  · simp only [h, if_true, decide_eq_true_eq]
    exact ⟨fun hyx => ⟨h.trans hy, hyx⟩, fun hm => hm.2⟩
  · simp only [h, if_false, decide_eq_true_eq]
    exact ⟨fun hxy => ⟨hxy, (le_of_not_ge h).trans hx⟩, fun hm => hm.1⟩

/-- Against a hull that starts no later than any window after it, `overlaps` is the sweep's
test of a start against the hull's end. -/
lemma overlapsHull_eq_startsWithin (current : I64 × I64) (ws : List Window)
    (h : ∀ w ∈ ws, current.1 ≤ w.start) :
    overlapsHull current ws = Sweep.startsWithin Window.start Window.stop current.2 ws := by
  induction ws generalizing current with
  | nil => rfl
  | cons w ws ih =>
    have hw : current.1 ≤ w.start := h w List.mem_cons_self
    rw [overlapsHull, Sweep.startsWithin,
      ih _ fun w' hw' => min_le_of_left_le (h w' (List.mem_cons_of_mem _ hw'))]
    simp [overlaps, Window.range, hw]

/-- `markOverlapping`, up to the order of the windows: of windows with distinct time windows,
unmarked and with ranges that are not empty, each is marked exactly when it overlaps another. -/
lemma markOverlapping_perm (windows : List Window)
    (hfresh : ∀ w ∈ windows, w.overlapping = false) (hranged : ∀ w ∈ windows, w.start ≤ w.stop)
    (hnodup : (windows.map Window.timeWindow).Nodup) :
    (markOverlapping windows).Perm
      (windows.map fun w => { w with overlapping := overlapsAnother windows w }) := by
  obtain ⟨ws, hws⟩ : ∃ ws, windows.insertionSort Ranged.SortLe = ws := ⟨_, rfl⟩
  have hperm : ws.Perm windows := hws ▸ List.perm_insertionSort _ _
  have hsorted : ws.Pairwise fun a b => a.start ≤ b.start := by
    rw [← hws]
    refine (List.pairwise_insertionSort Ranged.SortLe windows).imp fun hab => ?_
    rcases hab with hlt | ⟨heq, -⟩
    · exact le_of_lt hlt
    · exact le_of_eq heq
  have hne : ∀ w ∈ ws, w.start ≤ w.stop := fun w hw => hranged w (hperm.subset hw)
  -- the sweep over the sorted windows is the library's
  have hmarks : markOverlapping windows = List.zipWith
      (fun w flag => { w with overlapping := w.overlapping || flag }) ws
      (Sweep.marks Window.start Window.stop ws) := by
    unfold markOverlapping
    rw [hws]
    cases ws with
    | nil => rfl
    | cons first rest =>
      dsimp only
      rw [overlapsHull_eq_startsWithin first.range rest (List.pairwise_cons.mp hsorted).1]
      rfl
  rw [hmarks, Sweep.marks_eq_map hsorted hne (hperm.nodup_iff.mpr (hnodup.of_map _)),
    List.zipWith_map_right, List.zipWith_self]
  refine (List.Perm.map _ hperm).trans (List.Perm.of_eq (List.map_congr_left fun x hx => ?_))
  -- each flag: another window among the sorted ones meets it
  have hflag : decide (∃ y ∈ ws, y ≠ x ∧ Sweep.Meets Window.start Window.stop x y) =
      overlapsAnother windows x := by
    rw [Bool.eq_iff_iff, decide_eq_true_iff, overlapsAnother, List.any_eq_true]
    constructor
    · rintro ⟨y, hy, hyx, hmeet⟩
      refine ⟨y, hperm.subset hy, ?_⟩
      rw [Bool.and_eq_true, decide_eq_true_iff,
        overlaps_range_iff_meets (hranged x hx) (hranged y (hperm.subset hy))]
      exact ⟨fun htw => hyx (List.inj_on_of_nodup_map hnodup (hperm.subset hy) hx htw), hmeet⟩
    · rintro ⟨y, hy, hb⟩
      rw [Bool.and_eq_true, decide_eq_true_iff,
        overlaps_range_iff_meets (hranged x hx) (hranged y hy)] at hb
      exact ⟨y, hperm.mem_iff.mpr hy, fun hyx => hb.1 (hyx ▸ rfl), hb.2⟩
  rw [hfresh x hx, Bool.false_or, hflag]

/-- What `assign_to_windows` returns, when the files' ranges are not empty: each window the
loop built, keyed by its time window and marked as `overlapsAnother` says. -/
lemma mem_assignToWindows {unit : TimeUnit} {files : List FileHandle} {timeWindowSize : I64}
    (hranges : ∀ f ∈ files, f.timeRange.1 ≤ f.timeRange.2) {e : I64 × Window} :
    e ∈ assignToWindows unit files timeWindowSize ↔
      ∃ x ∈ (files.foldl (assignFile unit timeWindowSize) []).map Prod.snd,
        e = (x.timeWindow, { x with overlapping := (overlapsAnother
          ((files.foldl (assignFile unit timeWindowSize) []).map Prod.snd) x) }) := by
  have hW := WindowsOf.of_files unit timeWindowSize hranges
  have hmark := markOverlapping_perm _
    (fun w hw => by obtain ⟨e, he, rfl⟩ := List.mem_map.mp hw; exact hW.fresh e he)
    (fun w hw => by obtain ⟨e, he, rfl⟩ := List.mem_map.mp hw; exact hW.ranged e he)
    hW.nodup_timeWindow
  unfold assignToWindows
  rw [(List.perm_insertionSort _ _).mem_iff, (hmark.map _).mem_iff, List.map_map, List.mem_map]
  exact exists_congr fun x => and_congr_right fun _ => eq_comm

/-- `assign_to_windows`, for files whose ranges are not empty: a window is marked overlapping
exactly when its range overlaps the range of another window, and every file not being
compacted is in exactly one window, the one of its time window. -/
theorem assignToWindows_marks_overlaps (unit : TimeUnit) (files : List FileHandle)
    (timeWindowSize : I64) (hranges : ∀ f ∈ files, f.timeRange.1 ≤ f.timeRange.2) :
    (∀ e ∈ assignToWindows unit files timeWindowSize, e.2.overlapping = true ↔
        ∃ e' ∈ assignToWindows unit files timeWindowSize,
          e'.1 ≠ e.1 ∧ overlaps e.2.range e'.2.range = true) ∧
      ∀ f ∈ files, f.compacting = false → ∃ w,
        (fileTimeWindow unit timeWindowSize f, w) ∈ assignToWindows unit files timeWindowSize ∧
          f ∈ w.fileHandles ∧ ∀ e ∈ assignToWindows unit files timeWindowSize,
            f ∈ e.2.fileHandles → e = (fileTimeWindow unit timeWindowSize f, w) := by
  have hW := WindowsOf.of_files unit timeWindowSize hranges
  set windows := (files.foldl (assignFile unit timeWindowSize) []).map Prod.snd
  refine ⟨fun e he => ?_, fun f hf hcomp => ?_⟩
  · obtain ⟨x, hx, rfl⟩ := (mem_assignToWindows hranges).mp he
    -- the other windows of the result are the other windows of the loop
    show overlapsAnother windows x = true ↔ _
    rw [overlapsAnother, List.any_eq_true]
    constructor
    · rintro ⟨y, hy, hb⟩
      rw [Bool.and_eq_true, decide_eq_true_iff] at hb
      exact ⟨_, (mem_assignToWindows hranges).mpr ⟨y, hy, rfl⟩, hb⟩
    · rintro ⟨_, he', hne, hov⟩
      obtain ⟨y, hy, rfl⟩ := (mem_assignToWindows hranges).mp he'
      exact ⟨y, hy, by simpa using ⟨hne, hov⟩⟩
  · -- the window of the file's time window, which the loop built
    obtain ⟨e, he, hkey⟩ := List.mem_map.mp (hW.present f hf hcomp)
    have hx : e.2 ∈ windows := List.mem_map_of_mem he
    refine ⟨{ e.2 with overlapping := overlapsAnother windows e.2 }, ?_, ?_, ?_⟩
    · refine (mem_assignToWindows hranges).mpr ⟨e.2, hx, Prod.ext ?_ rfl⟩
      rw [hW.key e he, hkey]
    · exact (hW.holds e he f).mpr ⟨hf, hcomp, hkey.symm⟩
    · -- any window that holds the file is of its time window, and time windows are distinct
      rintro _ he' hfile
      obtain ⟨y, hy, rfl⟩ := (mem_assignToWindows hranges).mp he'
      have hyw := hW.mem_snd hy
      obtain ⟨-, -, hykey⟩ := (hW.holds _ hyw f).mp hfile
      have hytw : fileTimeWindow unit timeWindowSize f = y.timeWindow := hykey
      have hxy : y = e.2 := List.inj_on_of_nodup_map hW.nodup_timeWindow hy hx
        (by rw [← hytw, ← hkey, hW.key e he])
      rw [hxy]
      exact Prod.ext (by rw [hW.key e he, hkey]) rfl

/-- Two files of windows of five seconds, `[0, 10]` and `[8, 12]`: the windows `10` and `15`,
which overlap. -/
def twoWindowFiles : List FileHandle :=
  [⟨1, (I64.wrap 0, I64.wrap 10), 1, 1, some 1, false⟩,
    ⟨2, (I64.wrap 8, I64.wrap 12), 1, 1, some 2, false⟩]

theorem assignToWindows_marks_overlaps_twoWindows :
    (∀ f ∈ twoWindowFiles, f.timeRange.1 ≤ f.timeRange.2) ∧
      ((∀ e ∈ assignToWindows .second twoWindowFiles (I64.wrap 5), e.2.overlapping = true ↔
          ∃ e' ∈ assignToWindows .second twoWindowFiles (I64.wrap 5),
            e'.1 ≠ e.1 ∧ overlaps e.2.range e'.2.range = true) ∧
        ∀ f ∈ twoWindowFiles, f.compacting = false → ∃ w,
          (fileTimeWindow .second (I64.wrap 5) f, w) ∈
              assignToWindows .second twoWindowFiles (I64.wrap 5) ∧
            f ∈ w.fileHandles ∧ ∀ e ∈ assignToWindows .second twoWindowFiles (I64.wrap 5),
              f ∈ e.2.fileHandles → e = (fileTimeWindow .second (I64.wrap 5) f, w)) := by
  have hranges : ∀ f ∈ twoWindowFiles, f.timeRange.1 ≤ f.timeRange.2 := by decide
  exact ⟨hranges, assignToWindows_marks_overlaps .second _ (I64.wrap 5) hranges⟩

/-- A file whose last second is `i64::MAX`, with windows of two seconds: the ceiling of its last
second does not fit in an `i64`, and the file lands in the window keyed `i64::MIN`. -/
theorem assignToWindows_overflowing_ceiling :
    alignToCeilByBucket I64.MAX (I64.wrap 2) = none ∧
      (assignToWindows .second [⟨1, (I64.wrap 0, I64.MAX), 1, 1, some 1, false⟩]
        (I64.wrap 2)).map Prod.fst = [I64.MIN] := by
  decide

/-- `CompactionOutput`, without the output time range, which TWCS never sets. -/
structure CompactionOutput where
  outputLevel : ℕ
  inputs : List FileHandle
  filterDeleted : Bool
  deriving DecidableEq

/-- `LEVEL_COMPACTED`. -/
def levelCompacted : ℕ := 1

/-- `TwcsPicker`. -/
structure TwcsPicker where
  triggerFileNum : ℕ
  timeWindowSeconds : Option ℤ
  maxOutputFileSize : Option ℕ
  appendMode : Bool

/-- `TwcsPicker::build_output`: per window, the runs of its file groups decide whether
delete markers may be dropped, and the inputs come from `reduce_runs` or, for a single run
of enough files, from `merge_seq_files`. -/
def TwcsPicker.buildOutput (picker : TwcsPicker) (timeWindows : List (I64 × Window)) :
    List CompactionOutput :=
  timeWindows.filterMap fun (_, files) =>
    if files.files.isEmpty then none
    else
      let filesToMerge := files.files.map Prod.snd
      let sortedRuns := findSortedRuns filesToMerge
      let foundRuns := sortedRuns.length
      let filterDeleted := !files.overlapping && foundRuns ≤ 2 && !picker.appendMode
      let inputs : Option (List FileGroup) :=
        if foundRuns > 1 then some (reduceRuns sortedRuns)
        else
          let run := (sortedRuns.getLast?.map SortedRun.items).getD []
          if run.length < picker.triggerFileNum then none
          else some (mergeSeqFiles run picker.maxOutputFileSize)
      match inputs with
      | some inputs =>
        if inputs.isEmpty then none
        else some ⟨levelCompacted, inputs.flatMap FileGroup.files, filterDeleted⟩
      | none => none

/-- Three files of one window, `[0, 10]`, the single point `[5, 5]` and `[6, 8]`. -/
def nestedFileA : FileHandle := ⟨1, (I64.wrap 0, I64.wrap 10), 1, 1, some 1, false⟩

def nestedFileB : FileHandle := ⟨2, (I64.wrap 5, I64.wrap 5), 1, 1, some 2, false⟩

def nestedFileC : FileHandle := ⟨3, (I64.wrap 6, I64.wrap 8), 1, 1, some 3, false⟩

/-- Each neighbour pair of the three groups is apart for `Ranged::overlap`, so
`find_sorted_runs` puts all three in one run, although the first and the last overlap. -/
theorem findSortedRuns_run_overlaps :
    (findSortedRuns [FileGroup.newWithFile nestedFileA, FileGroup.newWithFile nestedFileB,
        FileGroup.newWithFile nestedFileC]).map
        (fun run => run.items.map fun g => g.files.map (·.fileId)) = [[[1], [2], [3]]] ∧
      Ranged.overlap (FileGroup.newWithFile nestedFileA) (FileGroup.newWithFile nestedFileC) =
        true := by
  decide

/-- Three files of one window, written by three flushes: `[0, 10]`, `[10, 20]`, which only
touches the first, and `[5, 6]` inside the first. -/
def touchingFileA : FileHandle := ⟨1, (I64.wrap 0, I64.wrap 10), 1, 1, some 1, false⟩

def touchingFileB : FileHandle := ⟨2, (I64.wrap 10, I64.wrap 20), 1, 1, some 2, false⟩

def touchingFileC : FileHandle := ⟨3, (I64.wrap 5, I64.wrap 6), 1, 1, some 3, false⟩

/-- With a window of an hour, TWCS compacts the first and third files with delete markers
dropped, and leaves out the second, which shares the timestamp `10` with the first. -/
theorem twcs_filterDeleted_leaves_touching_file :
    (TwcsPicker.buildOutput ⟨4, some 3600, none, false⟩
        (assignToWindows .second [touchingFileA, touchingFileB, touchingFileC]
          (I64.wrap 3600))).map
        (fun o => (o.inputs.map FileHandle.fileId, o.filterDeleted)) = [([3, 1], true)] ∧
      overlaps touchingFileB.timeRange touchingFileA.timeRange ∧
      touchingFileB.compacting = false := by
  refine ⟨?_, ?_, ?_⟩ <;> decide

end Greptime
