import Greptime.Query.WindowSort
import Mathlib.Data.List.TakeWhile

/-!
# The windowed sort, ascending

For an ascending sort the stream sorts every input that keeps the promise of its working
ranges: the time index of every row falls in a working range, and once a row is past the end of
a working range, every later row is too.  The invariant `Inv` says where the rows the stream holds
are:

* the rows merged so far (`full`) are sorted, and below the current working range and every
  later one;
* the rows pending for the current working range are in it, in sorted runs, the run in progress
  ending at `lastValue`;
* the output and the queue hold `full`, up to `fetch`.

The rows not read yet are in the current working range or a later one, with the promise between
them (`Unread`).  Each branch of `processRun` keeps all of this: a run that reaches past the end
of the working range is cut by bisection exactly there, and what is left of it is past that end,
so that the promise moves every later row to the next working range.  A whole run of the stream
then outputs a sorted permutation of its input, cut at `fetch` (`consume_sorts_of_asc`).
-/

namespace Greptime

namespace WindowSort

open WindowedSortStream

variable {α : Type}

/-! ## Where a row falls among the working ranges -/

section Ranges

variable (key : α → ℤ) (W : List (TimeRange × Finset ℕ))

/-- The rows in ascending order of their time index. -/
def KeySorted (l : List α) : Prop := l.Pairwise fun a b => key a ≤ key b

/-- The time index of the row is in the working range `j`. -/
def InRange (j : ℕ) (a : α) : Prop := ∃ w, W[j]? = some w ∧ key a ∈ w.1

/-- The row falls in the working range `idx` or a later one. -/
def Ahead (idx : ℕ) (a : α) : Prop := ∃ j, idx ≤ j ∧ InRange key W j a

/-- The row is below the working range `idx` and every later one. -/
def Below (idx : ℕ) (a : α) : Prop := ∀ j w, idx ≤ j → W[j]? = some w → key a < w.1.start

/-- The promise of the working ranges between two rows, the first read first: once the first is
past the end of a working range, so is the second. -/
def Promise (a b : α) : Prop := ∀ w ∈ W, w.1.end ≤ key a → w.1.end ≤ key b

/-- The rows not read yet: each in the working range `idx` or a later one, with the promise
between any two. -/
structure Unread (idx : ℕ) (rows : List α) : Prop where
  ahead : ∀ a ∈ rows, Ahead key W idx a
  promise : rows.Pairwise (Promise key W)

/-- The working ranges in order, each ending before the next starts. -/
structure Ordered : Prop where
  pairwise : W.Pairwise fun a b => a.1.end ≤ b.1.start
  valid : ∀ w ∈ W, w.1.Valid

variable {key W} {idx : ℕ} {a b : α} {w : TimeRange × Finset ℕ}

lemma Ordered.end_le_start (hW : Ordered W) {i j : ℕ} (hij : i < j) {w w' : TimeRange × Finset ℕ}
    (hi : W[i]? = some w) (hj : W[j]? = some w') : w.1.end ≤ w'.1.start := by
  obtain ⟨hi', rfl⟩ := List.getElem?_eq_some_iff.mp hi
  obtain ⟨hj', rfl⟩ := List.getElem?_eq_some_iff.mp hj
  exact List.pairwise_iff_getElem.mp hW.pairwise i j hi' hj' hij

lemma InRange.ahead (h : InRange key W idx a) : Ahead key W idx a := ⟨idx, le_refl _, h⟩

lemma Ahead.lt_length (h : Ahead key W idx a) : idx < W.length := by
  obtain ⟨j, hj, w, hw, -⟩ := h
  have := (List.getElem?_eq_some_iff.mp hw).1
  omega

/-- A row ahead of the working range `idx` is not below its start. -/
lemma Ahead.start_le (hW : Ordered W) (h : Ahead key W idx a) (hw : W[idx]? = some w) :
    w.1.start ≤ key a := by
  obtain ⟨j, hj, w', hw', ha⟩ := h
  rw [TimeRange.mem_def] at ha
  rcases Nat.lt_or_eq_of_le hj with hlt | rfl
  · have h₁ := hW.end_le_start hlt hw hw'
    have h₂ : w.1.start ≤ w.1.end := hW.valid w (List.mem_of_getElem? hw)
    omega
  · rw [hw, Option.some.injEq] at hw'
    subst hw'
    exact ha.1

/-- A row ahead of the working range `idx` and past its end is ahead of the next one. -/
lemma Ahead.succ (h : Ahead key W idx a) (hw : W[idx]? = some w) (he : w.1.end ≤ key a) :
    Ahead key W (idx + 1) a := by
  obtain ⟨j, hj, w', hw', ha⟩ := h
  refine ⟨j, ?_, w', hw', ha⟩
  rcases Nat.lt_or_eq_of_le hj with hlt | rfl
  · exact hlt
  · rw [hw, Option.some.injEq] at hw'
    subst hw'
    rw [TimeRange.mem_def] at ha
    omega

/-- A row in the working range `idx` is below every later one. -/
lemma InRange.below_succ (hW : Ordered W) (h : InRange key W idx a) : Below key W (idx + 1) a := by
  obtain ⟨w, hw, ha⟩ := h
  intro j w' hj hw'
  have := hW.end_le_start (by omega : idx < j) hw hw'
  rw [TimeRange.mem_def] at ha
  omega

lemma Below.succ (h : Below key W idx a) : Below key W (idx + 1) a :=
  fun j w hj hw => h j w (by omega) hw

lemma Below.lt_of_ahead (ha : Below key W idx a) (hb : Ahead key W idx b) : key a < key b := by
  obtain ⟨j, hj, w, hw, hb⟩ := hb
  have := ha j w hj hw
  rw [TimeRange.mem_def] at hb
  omega

lemma Unread.sublist {rows rows' : List α} (h : Unread key W idx rows) (hs : rows'.Sublist rows) :
    Unread key W idx rows' :=
  ⟨fun a ha => h.ahead a (hs.subset ha), h.promise.sublist hs⟩

/-- Once the first row not read is past the end of the working range, every row not read is
ahead of the next one. -/
lemma Unread.advance {rows : List α} (h : Unread key W idx (a :: rows)) (hw : W[idx]? = some w)
    (he : w.1.end ≤ key a) : Unread key W (idx + 1) (a :: rows) := by
  refine ⟨fun b hb => ?_, h.promise⟩
  rcases List.mem_cons.mp hb with rfl | hb
  · exact (h.ahead b List.mem_cons_self).succ hw he
  · have hpromise := List.rel_of_pairwise_cons h.promise hb w (List.mem_of_getElem? hw) he
    exact (h.ahead b (List.mem_cons_of_mem _ hb)).succ hw hpromise

end Ranges

/-! ## Sorted runs -/

section Sorted

variable {key : α → ℤ} {l : List α}

lemma KeySorted.sublist {l' : List α} (h : KeySorted key l) (hs : l'.Sublist l) : KeySorted key l' :=
  List.Pairwise.sublist hs h

lemma KeySorted.head_le (h : KeySorted key l) {x y : α} (hy : l.head? = some y) (hx : x ∈ l) :
    key y ≤ key x := by
  obtain ⟨ys, rfl⟩ := List.head?_eq_some_iff.mp hy
  rcases List.mem_cons.mp hx with rfl | hx
  · exact le_refl _
  · exact List.rel_of_pairwise_cons h hx

lemma KeySorted.le_getLast (h : KeySorted key l) {x z : α} (hz : l.getLast? = some z)
    (hx : x ∈ l) : key x ≤ key z := by
  obtain ⟨ys, rfl⟩ := List.getLast?_eq_some_iff.mp hz
  rcases List.mem_append.mp hx with hx | hx
  · exact (List.pairwise_append.mp h).2.2 x hx z List.mem_cons_self
  · rw [List.mem_singleton.mp hx]

/-- Two sorted lists, the last of the first not above the head of the second, are sorted one
after the other. -/
lemma KeySorted.append {l' : List α} (h : KeySorted key l) (h' : KeySorted key l')
    (hjoin : ∀ z ∈ l.getLast?, ∀ y ∈ l'.head?, key z ≤ key y) : KeySorted key (l ++ l') := by
  refine List.pairwise_append.mpr ⟨h, h', fun x hx y hy => ?_⟩
  have hz := List.getLast?_eq_some_getLast (List.ne_nil_of_mem hx)
  have hy₀ := List.head?_eq_some_head (List.ne_nil_of_mem hy)
  calc key x ≤ key (l.getLast _) := h.le_getLast hz hx
    _ ≤ key (l'.head _) := hjoin _ hz _ hy₀
    _ ≤ key y := h'.head_le hy₀ hy

lemma keySorted_of_rowLe {st : WindowedSortStream α} (hasc : st.opts.descending = false)
    (h : l.Pairwise fun a b => st.rowLe a b = true) : KeySorted st.key l :=
  h.imp fun hab => by simpa [rowLe, sortLe_iff, hasc] using hab

lemma rowLe_of_keySorted {st : WindowedSortStream α} (hasc : st.opts.descending = false)
    (h : KeySorted st.key l) : l.Pairwise fun a b => st.rowLe a b = true :=
  h.imp fun hab => by simpa [rowLe, sortLe_iff, hasc] using hab

lemma keySorted_of_isChain (h : l.IsChain fun x y => key x ≤ key y) : KeySorted key l :=
  List.pairwise_map.mp ((List.isChain_map key).mpr h).pairwise

variable (key l) in
/-- Every list has a permutation sorted by `key`: its merge sort. -/
lemma exists_keySorted_perm : ∃ S, S.Perm l ∧ KeySorted key S := by
  have h : (l.mergeSort fun a b => decide (key a ≤ key b)).Pairwise
      fun a b => decide (key a ≤ key b) = true :=
    List.pairwise_mergeSort
      (fun a b c hab hbc => by simp only [decide_eq_true_eq] at hab hbc ⊢; omega)
      (fun a b => by simpa using le_total (key a) (key b)) l
  exact ⟨_, List.mergeSort_perm _ _, h.imp fun hab => by simpa using hab⟩

/-! A run cut at a bound `e`: the rows below it, `l.takeWhile`, then the rest, `l.dropWhile`. -/

lemma key_lt_of_mem_takeWhile {e : ℤ} {x : α} (hx : x ∈ l.takeWhile fun y => decide (key y < e)) :
    key x < e := by
  simpa using List.mem_takeWhile_imp hx

lemma le_key_of_dropWhile_eq_cons {e : ℤ} {b : α} {l' : List α}
    (hb : l.dropWhile (fun y => decide (key y < e)) = b :: l') : e ≤ key b := by
  have h := List.head?_dropWhile_not (fun y => decide (key y < e)) l
  rw [hb, List.head?_cons] at h
  simpa using h

/-- A run whose last row is not below the bound keeps a row past the cut. -/
lemma dropWhile_lt_ne_nil {e : ℤ} {z : α} (hz : l.getLast? = some z) (he : e ≤ key z) :
    l.dropWhile (fun y => decide (key y < e)) ≠ [] := by
  intro hnil
  have hz' : z ∈ l.takeWhile fun y => decide (key y < e) := by
    rw [← List.append_nil (l.takeWhile _), ← hnil, List.takeWhile_append_dropWhile]
    exact List.mem_of_mem_getLast? hz
  have := key_lt_of_mem_takeWhile hz'
  omega

/-- A run of rows sorted by `key`, with its first and last values. -/
structure RunOf (key : α → ℤ) (rb : List α) (info : SucRun) : Prop where
  sorted : KeySorted key rb
  first : info.firstVal = rb.head?.map key
  last : info.lastVal = rb.getLast?.map key

/-- The time range of a non-empty ascending run: from its first value to just past its last. -/
lemma RunOf.getTimeRange {rb : List α} {info : SucRun} (h : RunOf key rb info) {a z : α}
    (ha : rb.head? = some a) (hz : rb.getLast? = some z) :
    info.getTimeRange = some ⟨key a, key z + 1⟩ := by
  have haz : key a ≤ key z := h.sorted.le_getLast hz (List.mem_of_mem_head? ha)
  simp [SucRun.getTimeRange, h.first, h.last, ha, hz, min_eq_left haz, max_eq_right haz,
    TimeRange.new_of_le (by omega : key a ≤ key z + 1)]

/-- A range that starts in `w` and ends past it meets `w` from its start to the end of `w`. -/
lemma TimeRange.intersection_of_crossing {s e : ℤ} {w : TimeRange} (h₁ : w.start ≤ s)
    (h₂ : s < w.end) (h₃ : w.end < e) :
    (⟨s, e⟩ : TimeRange).intersection w = some ⟨s, w.end⟩ := by
  have hov : (⟨s, e⟩ : TimeRange).isOverlapping w = true := by
    rw [TimeRange.isOverlapping_iff]
    exact ⟨h₂, lt_of_le_of_lt h₁ (lt_trans h₂ h₃)⟩
  simp only [TimeRange.intersection, hov, if_true, max_eq_left h₁, min_eq_right (le_of_lt h₃),
    TimeRange.new_of_le (le_of_lt h₂)]

/-- The values an ascending `try_concat_batch` compares. -/
lemma cmpWithOpts_ne_gt_iff {opts : SortOptions} (hasc : opts.descending = false) {x y : ℤ} :
    cmpWithOpts (some x) (some y) opts ≠ .gt ↔ x ≤ y := by
  simp [cmpWithOpts, hasc, compare_gt_iff_gt]

end Sorted

/-! ## The invariant -/

section Invariant

variable (key : α → ℤ) (W : List (TimeRange × Finset ℕ)) (fetch : Option ℕ)

/-- The sorted runs and the run in progress are sorted. -/
structure RunsSorted (st : WindowedSortStream α) : Prop where
  runs : ∀ s ∈ st.sortedInputRuns, KeySorted key s.flatten
  inProgress : KeySorted key st.inProgress.flatten

/-- The invariant of the ascending stream of `key`, `W` and `fetch`, with `full` the rows merged so
far before `fetch` cuts them and `output` the rows output so far. -/
structure Inv (st : WindowedSortStream α) (full output : List α) : Prop
    extends RunsSorted key st where
  key_eq : st.key = key
  ranges_eq : st.allAvailWorkingRange = W
  fetch_eq : st.fetch = fetch
  asc : st.opts.descending = false
  lastValue_eq : ∀ x ∈ st.inProgress.flatten.getLast?, st.lastValue = some (key x)
  full_sorted : KeySorted key full
  full_below : ∀ a ∈ full, Below key W st.workingIdx a
  pending_within : ∀ a ∈ st.pending, InRange key W st.workingIdx a
  emitted : truncate fetch (output ++ st.mergeStream.flatten.flatten) = truncate fetch full
  produced_eq : st.produced = output.length
  produced_le : ∀ k, fetch = some k → output.length ≤ k

/-- What reading the rows `rb` of a run leaves, the rows `rest` coming after it: the stream `r`
returns keeps the invariant, the rows still to read are ahead of its working range, and it holds
the rows it held and those of `rb`, merged or pending. -/
def Processed (st : WindowedSortStream α) (full output rb rest : List α)
    (r : Except StreamError (WindowedSortStream α)) : Prop :=
  ∃ st' full', r = .ok st' ∧ Inv key W fetch st' full' output ∧
    Unread key W st'.workingIdx rest ∧ (full' ++ st'.pending).Perm (full ++ st.pending ++ rb) ∧
    st'.isTerminated = st.isTerminated

/-- What the turns of `processRun` with `fuel` left do from the working range `idx`: they read a
non-empty run ahead of it. -/
def LaterTurns (fuel idx : ℕ) (output rest : List α) : Prop :=
  ∀ (st : WindowedSortStream α) (full rb : List α) (info : SucRun), Inv key W fetch st full output →
    st.workingIdx = idx → rb ≠ [] → RunOf key rb info → Unread key W idx (rb ++ rest) →
    Processed key W fetch st full output rb rest (st.processRun fuel (rb, info))

variable {key W fetch} {st : WindowedSortStream α} {full output : List α}

/-- Reading `rb₂` after a step that took in `rb₁` reads both. -/
lemma Processed.trans {st₂ : WindowedSortStream α} {full₂ rb₁ rb₂ rest : List α}
    {r : Except StreamError (WindowedSortStream α)}
    (h : Processed key W fetch st₂ full₂ output rb₂ rest r)
    (hperm : (full₂ ++ st₂.pending).Perm (full ++ st.pending ++ rb₁))
    (hterm : st₂.isTerminated = st.isTerminated) :
    Processed key W fetch st full output (rb₁ ++ rb₂) rest r := by
  obtain ⟨st', full', hr, hinv', hunread, hperm', hterm'⟩ := h
  refine ⟨st', full', hr, hinv', hunread, hperm'.trans ?_, hterm'.trans hterm⟩
  rw [← List.append_assoc]
  exact hperm.append_right rb₂

lemma Inv.new (opts : SortOptions) (hasc : opts.descending = false) :
    Inv key W fetch (WindowedSortStream.new key opts fetch W) [] [] where
  runs := by simp [WindowedSortStream.new]
  inProgress := List.Pairwise.nil
  key_eq := rfl
  ranges_eq := rfl
  fetch_eq := rfl
  asc := hasc
  lastValue_eq := by simp [WindowedSortStream.new]
  full_sorted := List.Pairwise.nil
  full_below := by simp
  pending_within := by simp [WindowedSortStream.new, pending]
  emitted := by simp [WindowedSortStream.new]
  produced_eq := rfl
  produced_le := fun _ _ => Nat.zero_le _

/-- A step that leaves the working range, the queue and the output alone keeps the invariant when
the runs it leaves are sorted and in the working range. -/
lemma Inv.of_pending (hinv : Inv key W fetch st full output) {st' : WindowedSortStream α}
    (hkey : st'.key = st.key) (hranges : st'.allAvailWorkingRange = st.allAvailWorkingRange)
    (hfetch : st'.fetch = st.fetch) (hopts : st'.opts = st.opts)
    (hqueue : st'.mergeStream = st.mergeStream) (hidx : st'.workingIdx = st.workingIdx)
    (hproduced : st'.produced = st.produced) (hsorted : RunsSorted key st')
    (hlast : ∀ x ∈ st'.inProgress.flatten.getLast?, st'.lastValue = some (key x))
    (hwithin : ∀ a ∈ st'.pending, InRange key W st.workingIdx a) :
    Inv key W fetch st' full output where
  toRunsSorted := hsorted
  key_eq := hkey.trans hinv.key_eq
  ranges_eq := hranges.trans hinv.ranges_eq
  fetch_eq := hfetch.trans hinv.fetch_eq
  asc := hopts ▸ hinv.asc
  lastValue_eq := hlast
  full_sorted := hinv.full_sorted
  full_below := hidx ▸ hinv.full_below
  pending_within := hidx ▸ hwithin
  emitted := hqueue ▸ hinv.emitted
  produced_eq := hproduced.trans hinv.produced_eq
  produced_le := hinv.produced_le

lemma RunsSorted.buildSortedStream (h : RunsSorted key st) : RunsSorted key st.buildSortedStream := by
  rw [buildSortedStream_eq]
  refine ⟨fun s hs => ?_, List.Pairwise.nil⟩
  split_ifs at hs
  · exact h.runs s hs
  · rcases List.mem_append.mp hs with hs | hs
    · exact h.runs s hs
    · rw [List.mem_singleton.mp hs]
      exact h.inProgress

lemma Inv.buildSortedStream (hinv : Inv key W fetch st full output) :
    Inv key W fetch st.buildSortedStream full output := by
  have h := buildSortedStream_eq st
  refine hinv.of_pending (by rw [h]) (by rw [h]) (by rw [h]) (by rw [h]) (by rw [h]) (by rw [h])
    (by rw [h]) hinv.toRunsSorted.buildSortedStream ?_ ?_
  · rw [h]
    simp
  · rw [pending_buildSortedStream]
    exact hinv.pending_within

/-- A sorted batch whose first value is the run's joins the runs, sorted. -/
lemma RunsSorted.tryConcatBatch (hs : RunsSorted key st) (hkey : st.key = key)
    (hasc : st.opts.descending = false)
    (hlast : ∀ x ∈ st.inProgress.flatten.getLast?, st.lastValue = some (key x)) {batch : List α}
    (hb : KeySorted key batch) {runInfo : SucRun} (hfirst : runInfo.firstVal = batch.head?.map key) :
    RunsSorted key (st.tryConcatBatch batch runInfo) := by
  rcases tryConcatBatch_cases st batch runInfo with ⟨hle, heq⟩ | ⟨-, heq⟩ <;> rw [heq]
  · -- the batch goes on with the run in progress: its head is not below the run's last value
    refine ⟨hs.runs, ?_⟩
    simp only [List.flatten_append, List.flatten_singleton]
    refine hs.inProgress.append hb fun z hz y hy => ?_
    rw [hlast z hz, hfirst, hy, Option.map_some, ← hkey] at hle
    rw [← hkey]
    exact (cmpWithOpts_ne_gt_iff hasc).mp hle
  · -- the run in progress is closed first
    exact ⟨hs.buildSortedStream.runs, by simpa using hb⟩

/-- A batch in the working range joins pending rows in the working range. -/
lemma Inv.within_tryConcatBatch (hinv : Inv key W fetch st full output) {batch : List α}
    {runInfo : SucRun} (hin : ∀ a ∈ batch, InRange key W st.workingIdx a) :
    ∀ a ∈ (st.tryConcatBatch batch runInfo).pending, InRange key W st.workingIdx a := by
  intro a ha
  rw [pending_tryConcatBatch] at ha
  rcases List.mem_append.mp ha with ha | ha
  · exact hinv.pending_within a ha
  · exact hin a ha

/-- A sorted batch in the working range, with its own first and last values, joins the pending
rows. -/
lemma Inv.tryConcatBatch (hinv : Inv key W fetch st full output) {batch : List α}
    (hb : KeySorted key batch) (hne : batch ≠ []) {runInfo : SucRun}
    (hfirst : runInfo.firstVal = batch.head?.map key)
    (hlast : runInfo.lastVal = batch.getLast?.map key)
    (hin : ∀ a ∈ batch, InRange key W st.workingIdx a) :
    Inv key W fetch (st.tryConcatBatch batch runInfo) full output := by
  obtain ⟨hk, ho, hf, hr, hq, hi, hp, -⟩ := tryConcatBatch_frame st batch runInfo
  refine hinv.of_pending hk hr hf ho hq hi hp
    (hinv.toRunsSorted.tryConcatBatch hinv.key_eq hinv.asc hinv.lastValue_eq hb hfirst) ?_ ?_
  · -- the run in progress now ends with the batch
    intro x hx
    have hend : (st.tryConcatBatch batch runInfo).inProgress.flatten.getLast? = batch.getLast? := by
      rcases tryConcatBatch_cases st batch runInfo with ⟨-, heq⟩ | ⟨-, heq⟩ <;> rw [heq]
      · rw [List.flatten_append, List.flatten_singleton, List.getLast?_append_of_ne_nil _ hne]
      · simp
    have hlv : (st.tryConcatBatch batch runInfo).lastValue = runInfo.lastVal := by
      rcases tryConcatBatch_cases st batch runInfo with ⟨-, heq⟩ | ⟨-, heq⟩ <;> rw [heq]
    rw [hend, Option.mem_def] at hx
    rw [hlv, hlast, hx, Option.map_some]
  · exact hinv.within_tryConcatBatch hin

/-- A sorted batch in the working range joins the pending rows and the run in progress is closed
at once: what happens to the head of a run that reaches past the working range, whose last value is
the whole run's and not the batch's. -/
lemma Inv.tryConcatBatch_buildSortedStream (hinv : Inv key W fetch st full output) {batch : List α}
    (hb : KeySorted key batch) {runInfo : SucRun} (hfirst : runInfo.firstVal = batch.head?.map key)
    (hin : ∀ a ∈ batch, InRange key W st.workingIdx a) :
    Inv key W fetch (st.tryConcatBatch batch runInfo).buildSortedStream full output := by
  obtain ⟨hk, ho, hf, hr, hq, hi, hp, -⟩ := tryConcatBatch_frame st batch runInfo
  have h := buildSortedStream_eq (st.tryConcatBatch batch runInfo)
  refine hinv.of_pending (by rw [h]; exact hk) (by rw [h]; exact hr) (by rw [h]; exact hf)
    (by rw [h]; exact ho) (by rw [h]; exact hq) (by rw [h]; exact hi) (by rw [h]; exact hp)
    (hinv.toRunsSorted.tryConcatBatch hinv.key_eq hinv.asc hinv.lastValue_eq hb hfirst).buildSortedStream
    (by simp) ?_
  rw [pending_buildSortedStream]
  exact hinv.within_tryConcatBatch hin

/-- Closing the working range: the merge of its runs joins `full`, sorted and below every later
working range, and the queue holds it up to `fetch`. -/
lemma Inv.startNewMergeSort (hinv : Inv key W fetch st full output) (hW : Ordered W)
    (hempty : st.inProgress = []) :
    ∃ st' merged, st.startNewMergeSort = .ok st' ∧ merged.Perm st.pending ∧
      Inv key W fetch st' (full ++ merged) output ∧ st'.workingIdx = st.workingIdx + 1 ∧
      st'.pending = [] ∧ st'.isTerminated = st.isTerminated := by
  obtain ⟨added, hst, hadded⟩ := startNewMergeSort_eq_ok st hempty
  set merged := mergeAll st.rowLe st.sortedInputRuns with hmerged
  have hperm : merged.Perm st.pending := by
    simpa [pending, hempty] using mergeAll_perm st.rowLe st.sortedInputRuns
  have hsorted : KeySorted key merged := by
    have h : merged.Pairwise fun a b => st.rowLe a b = true :=
      mergeAll_sorted (fun a b c => @sortLe_trans _ st.key st.opts a b c) (sortLe_total st.key st.opts)
        fun s hs => rowLe_of_keySorted hinv.asc (by rw [hinv.key_eq]; exact hinv.runs s hs)
    rw [← hinv.key_eq]
    exact keySorted_of_rowLe hinv.asc h
  have hinv' : Inv key W fetch
      { st with
        workingIdx := st.workingIdx + 1
        sortedInputRuns := []
        mergeStream := st.mergeStream ++ added } (full ++ merged) output :=
    { runs := by simp
      inProgress := by simp [hempty, KeySorted]
      key_eq := hinv.key_eq
      ranges_eq := hinv.ranges_eq
      fetch_eq := hinv.fetch_eq
      asc := hinv.asc
      lastValue_eq := by simp [hempty]
      full_sorted := List.pairwise_append.mpr ⟨hinv.full_sorted, hsorted, fun a ha b hb =>
        le_of_lt ((hinv.full_below a ha).lt_of_ahead (hinv.pending_within b (hperm.subset hb)).ahead)⟩
      full_below := by
        intro a ha
        rcases List.mem_append.mp ha with ha | ha
        · exact (hinv.full_below a ha).succ
        · exact (hinv.pending_within a (hperm.subset ha)).below_succ hW
      pending_within := by simp [pending, hempty]
      emitted := by
        -- the merge joins the queue whole, or cut at what `fetch` leaves after the output
        simp only [List.flatten_append, ← List.append_assoc]
        rcases hadded with h | h
        · rw [h]
          exact truncate_append_congr hinv.emitted merged
        · rw [h, remainingFetch, hinv.fetch_eq, hinv.produced_eq,
            truncate_append_truncate (by simp)]
          exact truncate_append_congr hinv.emitted merged
      produced_eq := hinv.produced_eq
      produced_le := hinv.produced_le }
  exact ⟨_, merged, hst, hperm, hinv', rfl, by simp [pending, hempty], rfl⟩

/-! ## The turns of `processRun`

A non-empty run from its first row `a` to its last row `z`, the first ahead of the working range
`w`, is inside `w`, reaches past its end, or starts past it. -/

section Turns

variable {fuel : ℕ} {t rest : List α} {info : SucRun} {w : TimeRange × Finset ℕ} {a z : α}

lemma Inv.getWorkingRange (hinv : Inv key W fetch st full output) (hw : W[st.workingIdx]? = some w) :
    st.getWorkingRange = some w.1 := by
  simp [WindowedSortStream.getWorkingRange, hinv.ranges_eq, hw]

/-- A run inside the working range joins the runs in progress. -/
lemma Inv.processRun_within (hinv : Inv key W fetch st full output) (hrun : RunOf key (a :: t) info)
    (hunread : Unread key W st.workingIdx ((a :: t) ++ rest)) (hw : W[st.workingIdx]? = some w)
    (hz : (a :: t).getLast? = some z) (hstart : w.1.start ≤ key a) (hzw : key z < w.1.end) :
    Processed key W fetch st full output (a :: t) rest (st.processRun (fuel + 1) (a :: t, info)) := by
  have hin : ∀ x ∈ a :: t, InRange key W st.workingIdx x := by
    intro x hx
    have h₁ := hrun.sorted.head_le rfl hx
    have h₂ := hrun.sorted.le_getLast hz hx
    exact ⟨w, hw, by rw [TimeRange.mem_def]; omega⟩
  obtain ⟨-, -, -, -, -, hi, -, ht⟩ := tryConcatBatch_frame st (a :: t) info
  rw [processRun_of_isSubset st (List.cons_ne_nil a t) (hrun.getTimeRange rfl hz)
    (hinv.getWorkingRange hw) (by simp [hinv.asc]) (by simp [hinv.asc, hstart])
    (by simp [TimeRange.isSubset_iff]; omega)]
  refine ⟨_, full, rfl, hinv.tryConcatBatch hrun.sorted (List.cons_ne_nil a t) hrun.first hrun.last hin,
    ?_, ?_, ht⟩
  · rw [hi]
    exact hunread.sublist (List.sublist_append_right _ rest)
  · rw [pending_tryConcatBatch, List.append_assoc]

/-- A run that reaches past the end of the working range: its head below the end joins the runs,
the working range is merged, and the rest of the run, past the end, is read in the next one. -/
lemma Inv.processRun_crossing (hinv : Inv key W fetch st full output) (hW : Ordered W)
    (hrun : RunOf key (a :: t) info) (hunread : Unread key W st.workingIdx ((a :: t) ++ rest))
    (hw : W[st.workingIdx]? = some w) (hz : (a :: t).getLast? = some z)
    (hstart : w.1.start ≤ key a) (haw : key a < w.1.end) (hzw : w.1.end ≤ key z)
    (next : LaterTurns key W fetch fuel (st.workingIdx + 1) output rest) :
    Processed key W fetch st full output (a :: t) rest (st.processRun (fuel + 1) (a :: t, info)) := by
  -- the run is its head below the end of the working range, then the rest
  set p : α → Bool := fun x => decide (key x < w.1.end) with hp
  set tw := (a :: t).takeWhile p with htw
  set dw := (a :: t).dropWhile p with hdw
  have hsplit : tw ++ dw = a :: t := List.takeWhile_append_dropWhile
  have htake : (a :: t).take tw.length = tw := by
    conv_lhs => rw [← hsplit]
    exact List.take_left
  have hdrop : (a :: t).drop tw.length = dw := by
    conv_lhs => rw [← hsplit]
    exact List.drop_left
  have htw_cons : tw = a :: t.takeWhile p := List.takeWhile_cons_of_pos (by simp [hp, haw])
  have hdw_ne : dw ≠ [] := dropWhile_lt_ne_nil hz hzw
  have hlen : tw.length < (a :: t).length := by
    rw [← hsplit, List.length_append]
    have := List.length_pos_of_ne_nil hdw_ne
    omega
  have htw_first : info.firstVal = tw.head?.map key := by
    rw [hrun.first, htw_cons]
    rfl
  have htw_in : ∀ x ∈ tw, InRange key W st.workingIdx x := by
    intro x hx
    have h₁ := hrun.sorted.head_le rfl ((List.takeWhile_sublist _).subset hx)
    have h₂ := key_lt_of_mem_takeWhile hx
    exact ⟨w, hw, by rw [TimeRange.mem_def]; omega⟩
  -- the slice of the run in the working range is its head
  have hslice : findSliceFromRange ((a :: t).map st.key) st.opts ⟨key a, w.1.end⟩ =
      (0, tw.length) := by
    rw [hinv.key_eq]
    exact findSliceFromRange_of_asc key st.opts hinv.asc (a :: t) _ fun x hx => by
      rw [List.head?_cons, Option.mem_some_iff] at hx
      rw [hx]
  rw [processRun_of_intersection st (List.cons_ne_nil a t) (hrun.getTimeRange rfl hz)
    (hinv.getWorkingRange hw) (by simp [hinv.asc]) (by simp [hinv.asc, hstart])
    (by simp [TimeRange.isSubset]; omega)
    (TimeRange.intersection_of_crossing hstart haw (by omega)) hslice, htake]
  obtain ⟨-, -, -, -, -, hi, -, ht⟩ := tryConcatBatch_frame st tw info
  obtain ⟨st₂, merged, hst₂, hperm, hinv₂, hidx₂, hpending₂, hterm₂⟩ :=
    (hinv.tryConcatBatch_buildSortedStream (hrun.sorted.sublist (List.takeWhile_sublist _))
      htw_first htw_in).startNewMergeSort hW (inProgress_buildSortedStream _)
  rw [hst₂, Except.ok_bind, if_pos (by omega), hdrop]
  -- the rest of the run starts past the end of the working range
  obtain ⟨b, dw', hb⟩ := List.exists_cons_of_ne_nil hdw_ne
  have hbw : w.1.end ≤ key b := le_key_of_dropWhile_eq_cons hb
  have hunread₂ : Unread key W (st.workingIdx + 1) (dw ++ rest) := by
    have h := hunread.sublist ((List.dropWhile_sublist p).append_right rest)
    rw [← hdw] at h
    rw [hb, List.cons_append] at h ⊢
    exact h.advance hw hbw
  have hrun₂ : RunOf key dw ⟨info.offset + tw.length, (a :: t).length - tw.length,
      ((a :: t).map st.key)[tw.length]?, info.lastVal⟩ :=
    { sorted := hrun.sorted.sublist (List.dropWhile_sublist _)
      first := by rw [hinv.key_eq, List.getElem?_map, ← hdrop, List.head?_drop]
      last := by rw [hrun.last, ← hdrop, List.getLast?_drop, if_neg (by omega)] }
  have h := next st₂ (full ++ merged) dw _ hinv₂ (by rw [hidx₂, workingIdx_buildSortedStream, hi])
    hdw_ne hrun₂ hunread₂
  have hperm₂ : (full ++ merged ++ st₂.pending).Perm (full ++ st.pending ++ tw) := by
    rw [hpending₂, List.append_nil, List.append_assoc]
    rw [pending_buildSortedStream, pending_tryConcatBatch] at hperm
    exact hperm.append_left full
  have h' := Processed.trans h hperm₂ (by rw [hterm₂, isTerminated_buildSortedStream, ht])
  rwa [hsplit] at h'

/-- A run past the end of the working range: the working range is merged and the run is read in
the next one. -/
lemma Inv.processRun_past (hinv : Inv key W fetch st full output) (hW : Ordered W)
    (hrun : RunOf key (a :: t) info) (hunread : Unread key W st.workingIdx ((a :: t) ++ rest))
    (hw : W[st.workingIdx]? = some w) (hz : (a :: t).getLast? = some z)
    (hstart : w.1.start ≤ key a) (haw : w.1.end ≤ key a)
    (next : LaterTurns key W fetch fuel (st.workingIdx + 1) output rest) :
    Processed key W fetch st full output (a :: t) rest (st.processRun (fuel + 1) (a :: t, info)) := by
  have haz : key a ≤ key z := hrun.sorted.le_getLast hz List.mem_cons_self
  rw [processRun_of_disjoint st (List.cons_ne_nil a t) (hrun.getTimeRange rfl hz)
    (hinv.getWorkingRange hw) (by simp [hinv.asc]) (by simp [hinv.asc, hstart])
    (by simp [TimeRange.isSubset]; omega)
    (TimeRange.intersection_eq_none_iff.mpr (by simp [TimeRange.isOverlapping]; omega))]
  obtain ⟨st₂, merged, hst₂, hperm, hinv₂, hidx₂, hpending₂, hterm₂⟩ :=
    hinv.buildSortedStream.startNewMergeSort hW (inProgress_buildSortedStream st)
  rw [hst₂, Except.ok_bind]
  -- the whole run, and every row after it, is past the end of the working range
  have hunread₂ : Unread key W (st.workingIdx + 1) ((a :: t) ++ rest) := by
    rw [List.cons_append] at hunread ⊢
    exact hunread.advance hw haw
  have h := next st₂ (full ++ merged) (a :: t) info hinv₂
    (by rw [hidx₂, workingIdx_buildSortedStream]) (List.cons_ne_nil a t) hrun hunread₂
  have hperm₂ : (full ++ merged ++ st₂.pending).Perm (full ++ st.pending ++ []) := by
    rw [hpending₂, List.append_nil, List.append_nil]
    rw [pending_buildSortedStream] at hperm
    exact hperm.append_left full
  have h' := Processed.trans h hperm₂ (by rw [hterm₂, isTerminated_buildSortedStream])
  rwa [List.nil_append] at h'

end Turns

/-- One turn of `processRun`: an empty run changes nothing, and a non-empty one falls in one of the
three cases, its first row being ahead of the working range. -/
lemma Inv.processRun_step (hinv : Inv key W fetch st full output) (hW : Ordered W) {fuel : ℕ}
    {rb rest : List α} {info : SucRun} (hrun : RunOf key rb info)
    (hunread : Unread key W st.workingIdx (rb ++ rest))
    (next : LaterTurns key W fetch fuel (st.workingIdx + 1) output rest) :
    Processed key W fetch st full output rb rest (st.processRun (fuel + 1) (rb, info)) := by
  cases rb with
  | nil =>
    rw [processRun_nil]
    exact ⟨st, full, rfl, hinv, hunread, by rw [List.append_nil], rfl⟩
  | cons a t =>
    obtain ⟨z, hz⟩ : ∃ z, (a :: t).getLast? = some z := ⟨_, List.getLast?_eq_some_getLast (List.cons_ne_nil a t)⟩
    have hahead := hunread.ahead a List.mem_cons_self
    obtain ⟨w, hw⟩ : ∃ w, W[st.workingIdx]? = some w :=
      ⟨_, List.getElem?_eq_getElem hahead.lt_length⟩
    have hstart := hahead.start_le hW hw
    rcases lt_or_ge (key z) w.1.end with hzw | hzw
    · exact hinv.processRun_within hrun hunread hw hz hstart hzw
    rcases lt_or_ge (key a) w.1.end with haw | haw
    · exact hinv.processRun_crossing hW hrun hunread hw hz hstart haw hzw next
    · exact hinv.processRun_past hW hrun hunread hw hz hstart haw next

/-- `processRun` reads a whole run when its fuel reaches past the last working range: each turn that
reads rows again moves to the next working range, ahead of which those rows are. -/
lemma Inv.processRun (hinv : Inv key W fetch st full output) (hW : Ordered W) (fuel : ℕ)
    (hfuel : W.length < st.workingIdx + fuel + 1) {rb rest : List α} {info : SucRun}
    (hrun : RunOf key rb info) (hunread : Unread key W st.workingIdx (rb ++ rest)) :
    Processed key W fetch st full output rb rest (st.processRun (fuel + 1) (rb, info)) := by
  induction fuel generalizing st full rb info with
  | zero =>
    -- no turn is left after this one: a row read again would be ahead of no working range
    refine hinv.processRun_step hW hrun hunread ?_
    intro st₂ full₂ rb₂ info₂ _ _ hne _ hunread₂
    obtain ⟨b, t, rfl⟩ := List.exists_cons_of_ne_nil hne
    have := (hunread₂.ahead b List.mem_cons_self).lt_length
    omega
  | succ fuel ih =>
    refine hinv.processRun_step hW hrun hunread ?_
    intro st₂ full₂ rb₂ info₂ hinv₂ hidx₂ _ hrun₂ hunread₂
    exact ih hinv₂ (by omega) hrun₂ (hidx₂ ▸ hunread₂)

lemma processRuns_cons (st : WindowedSortStream α) (run : List α × SucRun)
    (runs : List (List α × SucRun)) :
    st.processRuns (run :: runs) =
      st.processRun (st.allAvailWorkingRange.length + 1) run >>= fun st' => st'.processRuns runs :=
  rfl

/-- The loop over the runs of a batch reads them all. -/
lemma Inv.processRuns (hinv : Inv key W fetch st full output) (hW : Ordered W)
    {runs : List (List α × SucRun)} {rest : List α} (hruns : ∀ p ∈ runs, RunOf key p.1 p.2)
    (hunread : Unread key W st.workingIdx ((runs.map Prod.fst).flatten ++ rest)) :
    Processed key W fetch st full output (runs.map Prod.fst).flatten rest (st.processRuns runs) := by
  induction runs generalizing st full with
  | nil => exact ⟨st, full, rfl, hinv, hunread, by simp, rfl⟩
  | cons run runs ih =>
    rw [List.map_cons, List.flatten_cons, List.append_assoc] at hunread
    obtain ⟨st₁, full₁, h₁, hinv₁, hunread₁, hperm₁, hterm₁⟩ :=
      hinv.processRun hW W.length (by omega) (hruns run List.mem_cons_self) hunread
    rw [processRuns_cons, hinv.ranges_eq, h₁, Except.ok_bind, List.map_cons, List.flatten_cons]
    exact Processed.trans (ih hinv₁ (fun p hp => hruns p (List.mem_cons_of_mem _ hp)) hunread₁)
      hperm₁ hterm₁

/-- The stream marked as ended keeps the invariant, which does not read the mark. -/
lemma Inv.setTerminated (hinv : Inv key W fetch st full output) :
    Inv key W fetch { st with isTerminated := true } full output :=
  hinv.of_pending rfl rfl rfl rfl rfl rfl rfl ⟨hinv.runs, hinv.inProgress⟩ hinv.lastValue_eq
    hinv.pending_within

lemma truncate_truncate (fetch : Option ℕ) (l : List α) :
    truncate fetch (truncate fetch l) = truncate fetch l := by
  cases fetch <;> simp

lemma length_truncate_le {fetch : Option ℕ} {k : ℕ} (h : fetch = some k) (l : List α) :
    (truncate fetch l).length ≤ k := by
  subst h
  simp

/-- The rows output after `A`, cut at what `fetch` leaves after them, are `A` and the rest cut at
`fetch`. -/
lemma append_truncate_sub {fetch : Option ℕ} {A : List α}
    (hA : ∀ k, fetch = some k → A.length ≤ k) (M : List α) :
    A ++ truncate (fetch.map fun k => k - A.length) M = truncate fetch (A ++ M) := by
  cases fetch with
  | none => rfl
  | some k =>
    have := hA k rfl
    simp only [Option.map_some, truncate_some, List.take_append, List.take_of_length_le this]

/-- Polling the queue: everything output so far is `full` cut at `fetch`, and the stream ends only
when `fetch` rows are out. -/
lemma Inv.pollResults (hinv : Inv key W fetch st full output) :
    output ++ st.pollResults.1.flatten = truncate fetch full ∧
      Inv key W fetch st.pollResults.2 full (truncate fetch full) ∧
      st.pollResults.2.pending = st.pending ∧ st.pollResults.2.workingIdx = st.workingIdx ∧
      (st.pollResults.2.isTerminated = true →
        st.isTerminated = true ∨ fetch = some (truncate fetch full).length) := by
  have hle : ∀ k, st.fetch = some k → st.produced ≤ k := fun k hk => by
    rw [hinv.produced_eq]
    exact hinv.produced_le k (hinv.fetch_eq ▸ hk)
  obtain ⟨h₁, h₂, h₃⟩ := pollResults_spec st hle
  have hout : output ++ st.pollResults.1.flatten = truncate fetch full := by
    rw [h₁, remainingFetch, hinv.fetch_eq, hinv.produced_eq, append_truncate_sub hinv.produced_le,
      hinv.emitted]
  refine ⟨hout, ?_, by rw [h₂]; rfl, by rw [h₂], fun ht => ?_⟩
  · rw [h₂]
    exact
      { runs := hinv.runs
        inProgress := hinv.inProgress
        key_eq := hinv.key_eq
        ranges_eq := hinv.ranges_eq
        fetch_eq := hinv.fetch_eq
        asc := hinv.asc
        lastValue_eq := hinv.lastValue_eq
        full_sorted := hinv.full_sorted
        full_below := hinv.full_below
        pending_within := hinv.pending_within
        emitted := by simp [truncate_truncate]
        produced_eq := by rw [hinv.produced_eq, ← List.length_append, hout]
        produced_le := fun k hk => length_truncate_le hk full }
  · rcases h₃ ht with h | h
    · exact .inl h
    · right
      calc fetch = st.fetch := hinv.fetch_eq.symm
        _ = some (st.produced + st.pollResults.1.flatten.length) := h
        _ = some (truncate fetch full).length := by
          rw [hinv.produced_eq, ← List.length_append, hout]

/-- Once `fetch` rows of `l` are out, nothing after `l` is output. -/
lemma truncate_append_of_length {fetch : Option ℕ} {l : List α}
    (h : fetch = some (truncate fetch l).length) (S : List α) :
    truncate fetch (l ++ S) = truncate fetch l := by
  cases fetch with
  | none => cases h
  | some k =>
    simp only [truncate_some, List.length_take, Option.some.injEq] at h ⊢
    exact List.take_append_of_le_length (by omega)

/-- The runs `split_batch_to_sorted_run` cuts an ascending batch into, read by `key`. -/
lemma runOf_splitBatchToSortedRun (hinv : Inv key W fetch st full output)
    {runs : List (List α × SucRun)}
    (hruns : ∀ p ∈ runs, (p.1.IsChain fun x y => sortLe st.key st.opts x y) ∧
      p.2.firstVal = p.1.head?.map st.key ∧ p.2.lastVal = p.1.getLast?.map st.key) :
    ∀ p ∈ runs, RunOf key p.1 p.2 := by
  intro p hp
  obtain ⟨hchain, hfirst, hlast⟩ := hruns p hp
  rw [hinv.key_eq] at hchain hfirst hlast
  refine ⟨keySorted_of_isChain (hchain.imp fun _ _ h => ?_), hfirst, hlast⟩
  have h' := (sortLe_iff key st.opts).mp h
  rwa [hinv.asc, if_neg Bool.false_ne_true] at h'

/-- The stream over the batches still to read, all ahead of its working range: it outputs the rows
of `full`, the pending rows and the batches, sorted, up to `fetch`.  The induction is on the
batches; where `fetch` rows are out the stream ends, and every row it has not merged is above the
rows of `full`. -/
theorem Inv.consume (hinv : Inv key W fetch st full output) (hW : Ordered W)
    (hterm : st.isTerminated = false) {batches : List (List α)}
    (hunread : Unread key W st.workingIdx batches.flatten) :
    ∃ out sorted, st.consume batches = .ok out ∧ KeySorted key sorted ∧
      sorted.Perm (full ++ st.pending ++ batches.flatten) ∧
      output ++ out.flatten = truncate fetch sorted := by
  induction batches generalizing st full output with
  | nil =>
    -- the end of the input closes the last working range
    obtain ⟨st₂, merged, hst₂, hperm, hinv₂, -, -, -⟩ :=
      hinv.setTerminated.buildSortedStream.startNewMergeSort hW (inProgress_buildSortedStream _)
    rw [pending_buildSortedStream] at hperm
    refine ⟨st₂.pollResults.1, full ++ merged, ?_, hinv₂.full_sorted, ?_, hinv₂.pollResults.1⟩
    · simp only [consume, hst₂, Except.ok_bind]
      rfl
    · rw [List.flatten_nil, List.append_nil]
      exact hperm.append_left full
  | cons batch batches ih =>
    obtain ⟨runs, hsplit, hflat, hruns⟩ := splitBatchToSortedRun_spec st.key st.opts batch
    rw [List.flatten_cons, ← hflat] at hunread
    obtain ⟨st₁, full₁, h₁, hinv₁, hunread₁, hperm₁, hterm₁⟩ :=
      hinv.processRuns hW (runOf_splitBatchToSortedRun hinv hruns) hunread
    rw [hflat] at hperm₁
    obtain ⟨hout, hinv₂, hpending₂, hidx₂, hterm₂⟩ := hinv₁.pollResults
    simp only [consume, hsplit, h₁, Except.ok_bind]
    by_cases ht : st₁.pollResults.2.isTerminated = true
    · -- `fetch` rows are out: they are the first rows of `full₁`, below every other row
      have hfetch : fetch = some (truncate fetch full₁).length := by
        rcases hterm₂ ht with h | h
        · rw [hterm₁, hterm] at h
          cases h
        · exact h
      -- the rows not merged yet, in any sorted order: none of them is output
      obtain ⟨S, hS, hS_sorted⟩ := exists_keySorted_perm key (st₁.pending ++ batches.flatten)
      refine ⟨st₁.pollResults.1, full₁ ++ S, by rw [if_pos ht]; rfl, ?_, ?_, ?_⟩
      · refine List.pairwise_append.mpr ⟨hinv₁.full_sorted, hS_sorted, fun x hx y hy => ?_⟩
        have hy' : Ahead key W st₁.workingIdx y := by
          rcases List.mem_append.mp (hS.subset hy) with hy | hy
          · exact (hinv₁.pending_within y hy).ahead
          · exact hunread₁.ahead y hy
        exact le_of_lt ((hinv₁.full_below x hx).lt_of_ahead hy')
      · have hS' : (full₁ ++ S).Perm (full₁ ++ st₁.pending ++ batches.flatten) := by
          rw [List.append_assoc]
          exact hS.append_left full₁
        rw [List.flatten_cons, ← List.append_assoc]
        exact hS'.trans (hperm₁.append_right _)
      · rw [hout, truncate_append_of_length hfetch]
    · -- the stream goes on with the next batch
      rw [if_neg ht]
      obtain ⟨more, sorted, hmore, hsorted, hperm, hout'⟩ :=
        ih hinv₂ (Bool.eq_false_iff.mpr ht) (by rw [hidx₂]; exact hunread₁)
      refine ⟨st₁.pollResults.1 ++ more, sorted, by rw [hmore]; rfl, hsorted, ?_, ?_⟩
      · rw [hpending₂] at hperm
        rw [List.flatten_cons, ← List.append_assoc]
        exact hperm.trans (hperm₁.append_right _)
      · rw [List.flatten_append, ← List.append_assoc, hout, hout']

end Invariant

/-! ## The sort of a whole input -/

/-- The ascending stream sorts every input whose rows keep the promise of its working ranges: it
outputs a sorted permutation of the rows, cut at `fetch`. -/
theorem consume_sorts_of_asc (key : α → ℤ) (opts : SortOptions) (hasc : opts.descending = false)
    (fetch : Option ℕ) {W : List (TimeRange × Finset ℕ)} (hW : Ordered W) {input : List (List α)}
    (hunread : Unread key W 0 input.flatten) :
    ∃ out sorted, (WindowedSortStream.new key opts fetch W).consume input = .ok out ∧
      KeySorted key sorted ∧ sorted.Perm input.flatten ∧ out.flatten = truncate fetch sorted := by
  obtain ⟨out, sorted, h, hsorted, hperm, hout⟩ := (Inv.new opts hasc).consume hW rfl hunread
  refine ⟨out, sorted, h, hsorted, ?_, by rwa [List.nil_append] at hout⟩
  simpa [WindowedSortStream.new, pending] using hperm

section Ranges

variable {key : α → ℤ} {keys : List TimeRange} {pieces : List (TimeRange × List ℕ)}

/-- The ascending working ranges of the pieces of ranges come in order. -/
lemma ordered_computeAllWorkingRanges (hs : SplitOf keys pieces) :
    Ordered (computeAllWorkingRanges pieces false) where
  pairwise := computeAllWorkingRanges_pairwise hs
  valid := by
    intro w hw
    obtain ⟨groups, hg, hW⟩ := computeAllWorkingRanges_spec pieces
    rw [hW, List.mem_map] at hw
    obtain ⟨g, hgm, rfl⟩ := hw
    obtain ⟨x, hx⟩ := List.exists_mem_of_ne_nil g (hg.ne_nil g hgm)
    have hb := hull_bounds (hg.pairwise_of_mem hs hgm)
      (fun y hy => (hg.proper_of_mem hs hgm hy).valid) hx
    have hp := hg.proper_of_mem hs hgm hx
    unfold TimeRange.Proper at hp
    unfold TimeRange.Valid
    omega

/-- Rows read range by range, each row in its range and each range's rows sorted, keep the promise
of the working ranges, for ranges that hold a point and come in the order of their starts: a row
is in some working range, and a row past the end of a working range is past the end of its own
range's, where every later range starts. -/
lemma unread_of_ranges (hs : SplitOf keys pieces)
    (hmono : keys.Pairwise fun a b => a.start ≤ b.start) (hprop : ∀ r ∈ keys, r.Proper)
    {rows : List (List α)}
    (hrows : List.Forall₂ (fun r l => (∀ a ∈ l, key a ∈ r) ∧ KeySorted key l) keys rows) :
    Unread key (computeAllWorkingRanges pieces false) 0 rows.flatten where
  ahead := by
    intro a ha
    obtain ⟨l, hl, hal⟩ := List.mem_flatten.mp ha
    obtain ⟨i, hi, rfl⟩ := List.mem_iff_getElem.mp hl
    have hik : i < keys.length := hrows.length_eq ▸ hi
    have hin := (hrows.get hik hi).1 a hal
    obtain ⟨w, hw, haw⟩ := exists_workingRange_of_mem hs (List.getElem_mem hik) hin
    obtain ⟨j, hj, rfl⟩ := List.mem_iff_getElem.mp hw
    exact ⟨j, Nat.zero_le j, _, List.getElem?_eq_getElem hj, haw⟩
  promise := by
    refine List.pairwise_flatten.mpr ⟨fun l hl => ?_, ?_⟩
    · -- within a range the rows are sorted
      obtain ⟨i, hi, rfl⟩ := List.mem_iff_getElem.mp hl
      exact (hrows.get (hrows.length_eq ▸ hi) hi).2.imp fun hab w _ he => le_trans he hab
    · -- across ranges the promise of the working ranges holds
      refine List.pairwise_iff_getElem.mpr fun i j hi hj hij x hx y hy w hw he => ?_
      have hik : i < keys.length := hrows.length_eq ▸ hi
      have hjk : j < keys.length := hrows.length_eq ▸ hj
      have hx' := (hrows.get hik hi).1 x hx
      have hy' := (hrows.get hjk hj).1 y hy
      rw [TimeRange.mem_def] at hx' hy'
      have := computeAllWorkingRanges_promise hs hmono hprop (List.getElem?_eq_getElem hik)
        (List.getElem?_eq_getElem hjk) hij hw (by simp only [List.get_eq_getElem] at hx'; omega)
      simp only [List.get_eq_getElem] at hy'
      omega

end Ranges

end WindowSort

end Greptime
