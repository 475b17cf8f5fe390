import Greptime.Read.Merge
import Mathlib.Data.List.TakeWhile

/-!
# Why `MergeReader` merges (the merge window)

The reader is correct because of one invariant of its heaps, which `refill_hot` restores after
every output (`MergeReader.Settled`): all hot nodes share the primary key of the hot root, and
every cold node is behind the hot root, that is, its first `(primary key, timestamp)` comes
after the root's last one.  From it:

* every batch the reader outputs is a prefix of the root's current batch whose rows precede
  every row the reader still holds (`MergeReader.emit_spec`): the next hot node has the root's
  key, so comparing timestamps is comparing keys, and the cold nodes are behind the whole
  batch;
* the prefix is never empty: the root's first timestamp is at most that of the next hot node,
  so the binary search stops at the first row at the earliest (`outputEnd_spec`);
* so each call of `next_batch` outputs rows, and a consumer reads every row once, in order,
  within as many calls as there are rows (`mergeReader_readAll_merges`).

The rows a node has yet to yield are `Node.rows`; the rows the reader holds are
`MergeReader.rows`.  Outputs are slices of the sources' batches (`IsSliceOf`).
-/

namespace Greptime

open Heap

variable {K V : Type}

/-- `b` is a run of consecutive rows of one of the batches `inputs`. -/
def IsSliceOf (inputs : List (Batch K V)) (b : Batch K V) : Prop :=
  ∃ b₀ ∈ inputs, ∃ offset length, b = b₀.slice offset length

namespace IsSliceOf

variable {inputs : List (Batch K V)} {b : Batch K V}

lemma of_mem (h : b ∈ inputs) : IsSliceOf inputs b :=
  ⟨b, h, 0, b.numRows, b.slice_zero_numRows.symm⟩

lemma slice (h : IsSliceOf inputs b) (offset length : ℕ) :
    IsSliceOf inputs (b.slice offset length) := by
  obtain ⟨b₀, hb₀, i, l, rfl⟩ := h
  exact ⟨b₀, hb₀, _, _, Batch.slice_slice b₀ i l offset length⟩

end IsSliceOf

variable [LinearOrder K]

lemma Row.precedes_refl (x : Row K V) : Row.Precedes x x := .inr ⟨rfl, le_rfl⟩

lemma Row.Precedes.timeKey_le {x y : Row K V} (h : Row.Precedes x y) : x.timeKey ≤ y.timeKey :=
  h.elim le_of_lt fun h => h.1.le

lemma Row.precedes_of_timeKey_lt {x y : Row K V} (h : x.timeKey < y.timeKey) :
    Row.Precedes x y := .inl h

lemma Row.Precedes.trans {x y z : Row K V} (hxy : Row.Precedes x y) (hyz : Row.Precedes y z) :
    Row.Precedes x z :=
  IsTrans.trans x y z hxy hyz

/-- The key of a `(key, timestamp)` pair can only grow along the lexicographic order. -/
lemma key_le_of_toLex_le {a b : K} {x y : ℤ} (h : toLex (a, x) ≤ toLex (b, y)) : a ≤ b := by
  rcases Prod.Lex.toLex_le_toLex.mp h with h | ⟨h, -⟩
  · exact h.le
  · exact h.le

/-! ## Nodes -/

namespace Node

/-- The rows the node has yet to yield. -/
def rows (n : Node K V) : List (Row K V) := (n.current :: n.rest).flatMap Batch.rows

/-- The rows of a node, none at EOF. -/
def rowsOf : Option (Node K V) → List (Row K V)
  | none => []
  | some n => n.rows

/-- The first row of the current batch. -/
def firstRow (n : Node K V) : Row K V := n.firstEntry.toRow n.primaryKey

/-- The heaps' order as a key: the first `(primary key, timestamp)`, then the first sequence
descending. -/
def sortKey (n : Node K V) : (K ×ₗ ℤ) ×ₗ ℕᵒᵈ :=
  toLex (toLex (n.primaryKey, n.firstTs), OrderDual.toDual n.firstSeq)

/-- The batches the node reads are slices of `inputs`. -/
def FromInputs (inputs : List (Batch K V)) (n : Node K V) : Prop :=
  ∀ b ∈ n.current :: n.rest, IsSliceOf inputs b

variable {n : Node K V}

lemma cmp_eq_compare (a b : Node K V) : a.cmp b = compare a.sortKey b.sortKey := rfl

lemma firstRow_timeKey (n : Node K V) : n.firstRow.timeKey = toLex (n.primaryKey, n.firstTs) :=
  rfl

lemma isBehind_iff {a b : Node K V} :
    a.isBehind b = true ↔ toLex (b.primaryKey, b.lastTs) < toLex (a.primaryKey, a.firstTs) := by
  have hcmp : (compare a.primaryKey b.primaryKey).then (compare a.firstTs b.lastTs) =
      compare (toLex (a.primaryKey, a.firstTs)) (toLex (b.primaryKey, b.lastTs)) := rfl
  rw [isBehind, hcmp, beq_iff_eq, compare_gt_iff_gt]

lemma firstKey_le_of_sortKey_le {a b : Node K V} (h : a.sortKey ≤ b.sortKey) :
    toLex (a.primaryKey, a.firstTs) ≤ toLex (b.primaryKey, b.firstTs) := by
  rcases Prod.Lex.toLex_le_toLex.mp h with h | ⟨h, -⟩
  · exact h.le
  · exact h.le

/-- The heaps' order is the stream order of the first rows. -/
lemma precedes_firstRow_of_le {a b : Node K V} (h : a.sortKey ≤ b.sortKey) :
    Row.Precedes a.firstRow b.firstRow := by
  rcases Prod.Lex.toLex_le_toLex.mp h with h | ⟨h, h'⟩
  · exact .inl h
  · exact .inr ⟨h, OrderDual.toDual_le_toDual.mp h'⟩

/-- Being behind a node only gets easier for a node later in the heaps' order. -/
lemma isBehind_of_le {w c root : Node K V} (hw : w.isBehind root = true)
    (h : w.sortKey ≤ c.sortKey) : c.isBehind root = true :=
  isBehind_iff.mpr ((isBehind_iff.mp hw).trans_le (firstKey_le_of_sortKey_le h))

lemma primaryKey_le_of_isBehind {c root : Node K V} (h : c.isBehind root = true) :
    root.primaryKey ≤ c.primaryKey :=
  key_le_of_toLex_le (isBehind_iff.mp h).le

lemma sorted_rows (n : Node K V) : RowsSorted n.rows := n.mergeSorted.sorted

lemma rows_eq (n : Node K V) : n.rows = n.current.rows ++ n.rest.flatMap Batch.rows := rfl

lemma sorted_current (n : Node K V) : RowsSorted n.current.rows :=
  (List.pairwise_append.mp n.sorted_rows).1

/-- The rows start with the first row. -/
lemma exists_rows_eq_cons (n : Node K V) : ∃ tail, n.rows = n.firstRow :: tail := by
  refine ⟨(n.current.entries.tail.map (Entry.toRow n.primaryKey)) ++ n.rest.flatMap Batch.rows, ?_⟩
  have hcur : n.current.rows = n.firstRow :: n.current.entries.tail.map (Entry.toRow n.primaryKey) := by
    rw [firstRow, firstEntry, ← List.map_cons, List.cons_head_tail]
    rfl
  rw [rows_eq, hcur, List.cons_append]

lemma numRows_pos (n : Node K V) : 0 < n.current.numRows :=
  List.length_pos_iff_ne_nil.mpr n.current_ne

lemma firstRow_mem_rows (n : Node K V) : n.firstRow ∈ n.rows := by
  obtain ⟨tail, htail⟩ := n.exists_rows_eq_cons
  rw [htail]
  exact List.mem_cons_self

/-- The first row comes first. -/
lemma firstRow_precedes {y : Row K V} (hy : y ∈ n.rows) : Row.Precedes n.firstRow y := by
  obtain ⟨tail, htail⟩ := n.exists_rows_eq_cons
  have hsorted := n.sorted_rows
  rw [htail] at hsorted hy
  rcases List.mem_cons.mp hy with rfl | hy
  · exact Row.precedes_refl _
  · exact (List.pairwise_cons.mp hsorted).1 y hy

lemma primaryKey_le_of_mem_rows {y : Row K V} (hy : y ∈ n.rows) : n.primaryKey ≤ y.key :=
  key_le_of_toLex_le (firstRow_precedes hy).timeKey_le

/-- No row of the current batch is after its last `(primary key, timestamp)`. -/
lemma timeKey_le_lastKey {x : Row K V} (hx : x ∈ n.current.rows) :
    x.timeKey ≤ toLex (n.primaryKey, n.lastTs) := by
  have hsplit : n.current.rows =
      n.current.entries.dropLast.map (Entry.toRow n.primaryKey) ++
        [n.lastEntry.toRow n.primaryKey] := by
    calc n.current.rows
        = (n.current.entries.dropLast ++ [n.lastEntry]).map (Entry.toRow n.primaryKey) := by
          rw [lastEntry, List.dropLast_append_getLast]
          rfl
      _ = _ := by rw [List.map_append, List.map_singleton]
  have hsorted := n.sorted_current
  rw [hsplit] at hsorted hx
  rcases List.mem_append.mp hx with hx | hx
  · exact ((List.pairwise_append.mp hsorted).2.2 x hx _ List.mem_cons_self).timeKey_le
  · rw [List.mem_singleton.mp hx]
    rfl

/-! ### Fetching and skipping rows -/

lemma rowsOf_ofBatches (bs : List (Batch K V)) (hne : ∀ b ∈ bs, b.entries ≠ [])
    (hsorted : MergeSorted bs) : rowsOf (ofBatches bs hne hsorted) = bs.flatMap Batch.rows := by
  cases bs <;> rfl

/-- A node made of batches reads those batches. -/
lemma batches_of_mem_ofBatches {bs : List (Batch K V)} {hne : ∀ b ∈ bs, b.entries ≠ []}
    {hsorted : MergeSorted bs} {t : Node K V} (ht : t ∈ ofBatches bs hne hsorted) :
    t.current :: t.rest = bs := by
  cases bs with
  | nil => simp [ofBatches] at ht
  | cons b bs =>
    simp only [ofBatches, Option.mem_def, Option.some.injEq] at ht
    subst ht
    rfl

lemma rows_fetchBatch (n : Node K V) : n.current.rows ++ rowsOf n.fetchBatch.2 = n.rows := by
  rw [fetchBatch, rowsOf_ofBatches, rows_eq]

lemma skipRows_of_eq_zero {k : ℕ} (h : n.current.numRows - k = 0) :
    n.skipRows k = n.fetchBatch.2 := by
  simp [skipRows, h]

lemma eq_of_mem_skipRows {k : ℕ} (h : n.current.numRows - k ≠ 0) {t : Node K V}
    (ht : t ∈ n.skipRows k) :
    t.current = n.current.slice k (n.current.numRows - k) ∧ t.rest = n.rest := by
  rw [Node.skipRows, dif_neg h, Option.mem_def, Option.some.injEq] at ht
  subst ht
  exact ⟨rfl, rfl⟩

/-- Skipping rows cuts them off the front of the node's rows. -/
lemma rows_skipRows (n : Node K V) {k : ℕ} (hk : k ≤ n.current.numRows) :
    (n.current.slice 0 k).rows ++ rowsOf (n.skipRows k) = n.rows := by
  by_cases hzero : n.current.numRows - k = 0
  · obtain rfl : k = n.current.numRows := by omega
    rw [skipRows_of_eq_zero hzero, Batch.slice_zero_numRows, rows_fetchBatch]
  · simp only [skipRows, hzero, dite_false, rowsOf, rows, List.flatMap_cons,
      ← List.append_assoc, Batch.rows_slice_append]

/-- What is left of a node keeps at least its key. -/
lemma primaryKey_le_of_skipRows {k : ℕ} (hk : k ≤ n.current.numRows) {t : Node K V}
    (ht : t ∈ n.skipRows k) : n.primaryKey ≤ t.primaryKey := by
  have hmem : t.firstRow ∈ n.rows := by
    rw [← n.rows_skipRows hk, Option.mem_def.mp ht]
    exact List.mem_append_right _ t.firstRow_mem_rows
  exact primaryKey_le_of_mem_rows hmem

lemma FromInputs.skipRows {inputs : List (Batch K V)} (h : n.FromInputs inputs) (k : ℕ)
    {t : Node K V} (ht : t ∈ n.skipRows k) : t.FromInputs inputs := by
  have hrest : ∀ b ∈ n.rest, IsSliceOf inputs b := fun b hb => h b (List.mem_cons_of_mem _ hb)
  by_cases hzero : n.current.numRows - k = 0
  · rw [skipRows_of_eq_zero hzero, fetchBatch] at ht
    intro b hb
    rw [batches_of_mem_ofBatches ht] at hb
    exact hrest b hb
  · obtain ⟨hcur, hrest'⟩ := eq_of_mem_skipRows hzero ht
    intro b hb
    rw [hcur, hrest'] at hb
    rcases List.mem_cons.mp hb with rfl | hb
    · exact (h _ List.mem_cons_self).slice _ _
    · exact hrest b hb

end Node

lemma Node.primaryKey_le_of_sortKey_le {a b : Node K V} (h : a.sortKey ≤ b.sortKey) :
    a.primaryKey ≤ b.primaryKey :=
  key_le_of_toLex_le (Node.firstKey_le_of_sortKey_le h)

/-- The node a heap pops is least in the heap. -/
lemma Node.sortKey_le_of_popMin {l l' : List (Node K V)} {m c : Node K V}
    (h : popMin Node.cmp l = some (m, l')) (hc : c ∈ l) : m.sortKey ≤ c.sortKey :=
  le_of_popMin_of_mem Node.cmp_eq_compare h hc

/-- Between nodes of one key the heaps' order compares first timestamps. -/
lemma Node.firstTs_le_of_sortKey_le {a b : Node K V} (h : a.sortKey ≤ b.sortKey)
    (hkey : a.primaryKey = b.primaryKey) : a.firstTs ≤ b.firstTs := by
  rcases Prod.Lex.toLex_le_toLex.mp (Node.firstKey_le_of_sortKey_le h) with hlt | ⟨-, hle⟩
  · exact absurd hkey hlt.ne
  · exact hle

/-! ## The heaps -/

namespace MergeReader

/-- The rows the reader holds. -/
def rows (r : MergeReader K V) : List (Row K V) := (r.hot ++ r.cold).flatMap Node.rows

/-- The heaps as `refill_hot` leaves them: the hot nodes share their primary key, every cold
node is behind the hot root, and the cold heap is empty when the hot one is. -/
structure Settled (r : MergeReader K V) : Prop where
  hotKey : ∀ a ∈ r.hot, ∀ b ∈ r.hot, a.primaryKey = b.primaryKey
  coldBehind : ∀ root ∈ peek Node.cmp r.hot, ∀ c ∈ r.cold, c.isBehind root = true
  coldNil : r.hot = [] → r.cold = []

/-- What `refill_hot` starts from: the hot nodes share their primary key and no cold node has
a smaller one. -/
structure RefillReady (r : MergeReader K V) : Prop where
  hotKey : ∀ a ∈ r.hot, ∀ b ∈ r.hot, a.primaryKey = b.primaryKey
  coldKey : ∀ a ∈ r.hot, ∀ c ∈ r.cold, a.primaryKey ≤ c.primaryKey

/-- The reader between two calls of `next_batch`: settled heaps of nodes reading slices of the
input batches, and no batch waiting. -/
structure Inv (inputs : List (Batch K V)) (r : MergeReader K V) : Prop extends Settled r where
  fromInputs : ∀ n ∈ r.hot ++ r.cold, n.FromInputs inputs
  noOutput : r.outputBatch = none

variable {r : MergeReader K V}

lemma refillHot_of_popMin_none (h : popMin Node.cmp r.cold = none) : r.refillHot = r := by
  rw [refillHot]
  split <;> simp_all

/-- `refill_hot` stops at a cold node behind the hot root. -/
lemma refillHot_of_behind {warmest root : Node K V} {cold : List (Node K V)}
    (hpop : popMin Node.cmp r.cold = some (warmest, cold)) (hroot : peek Node.cmp r.hot = some root)
    (hbehind : warmest.isBehind root = true) : r.refillHot = r := by
  rw [refillHot]
  split
  · simp_all
  · rename_i warmest' cold' h'
    obtain ⟨rfl, rfl⟩ : warmest = warmest' ∧ cold = cold' := by simpa [hpop] using h'
    simp [hroot, hbehind]

/-- Otherwise it moves the warmest cold node to the hot heap and goes on. -/
lemma refillHot_of_not_behind {warmest : Node K V} {cold : List (Node K V)}
    (hpop : popMin Node.cmp r.cold = some (warmest, cold))
    (hbehind : ∀ root ∈ peek Node.cmp r.hot, warmest.isBehind root = false) :
    r.refillHot = { r with hot := r.hot ++ [warmest], cold }.refillHot := by
  rw [refillHot]
  split
  · simp_all
  · rename_i warmest' cold' h'
    obtain ⟨rfl, rfl⟩ : warmest = warmest' ∧ cold = cold' := by simpa [hpop] using h'
    rcases hpeek : peek Node.cmp r.hot with _ | root
    · simp
    · simp [hbehind root hpeek]

/-- `refill_hot` keeps the nodes and leaves the heaps settled. -/
lemma refillHot_spec (r : MergeReader K V) (h : RefillReady r) :
    (r.refillHot.hot ++ r.refillHot.cold).Perm (r.hot ++ r.cold) ∧ Settled r.refillHot ∧
      r.refillHot.outputBatch = r.outputBatch := by
  induction r using refillHot.induct with
  | case1 r hnone =>
    -- no cold node: nothing moves
    rw [refillHot_of_popMin_none hnone]
    have hcold := popMin_eq_none_iff.mp hnone
    exact ⟨List.Perm.refl _, ⟨h.hotKey, by simp [hcold], fun _ => hcold⟩, rfl⟩
  | case2 r warmest cold hpop behind hbehind =>
    -- the warmest cold node is behind the root, and so are the others
    simp only [behind] at hbehind
    rcases hpeek : peek Node.cmp r.hot with _ | root
    · simp [hpeek] at hbehind
    rw [hpeek] at hbehind
    rw [refillHot_of_behind hpop hpeek hbehind]
    refine ⟨List.Perm.refl _, ⟨h.hotKey, ?_, ?_⟩, rfl⟩
    · intro root' hroot' c hc
      rw [hpeek, Option.mem_def, Option.some.injEq] at hroot'
      subst hroot'
      exact Node.isBehind_of_le hbehind (Node.sortKey_le_of_popMin hpop hc)
    · intro hhot
      simp [hhot, peek_eq_none_iff.mpr] at hpeek
  | case3 r warmest cold hpop behind hbehind ih =>
    simp only [behind] at hbehind
    have hnot : ∀ root ∈ peek Node.cmp r.hot, warmest.isBehind root = false := by
      intro root hroot
      rw [Option.mem_def.mp hroot] at hbehind
      simpa using hbehind
    rw [refillHot_of_not_behind hpop hnot]
    have hperm := popMin_perm hpop
    have hmem : warmest ∈ r.cold := mem_of_popMin hpop
    -- the warmest cold node has the key of the hot nodes
    have hkey : ∀ a ∈ r.hot, warmest.primaryKey = a.primaryKey := by
      intro a ha
      rcases hpeek : peek Node.cmp r.hot with _ | root
      · simp [peek_eq_none_iff.mp hpeek] at ha
      · obtain ⟨others, hroot⟩ := peek_eq_some_iff.mp hpeek
        have hle : toLex (warmest.primaryKey, warmest.firstTs) ≤
            toLex (root.primaryKey, root.lastTs) := by
          refine not_lt.mp fun hlt => ?_
          have hb := Node.isBehind_iff.mpr hlt
          rw [hnot root hpeek] at hb
          exact absurd hb (by simp)
        have hroot_le := h.coldKey root (mem_of_popMin hroot) warmest hmem
        rw [le_antisymm (key_le_of_toLex_le hle) hroot_le]
        exact h.hotKey root (mem_of_popMin hroot) a ha
    have hready : RefillReady { r with hot := r.hot ++ [warmest], cold } := by
      constructor
      · intro a ha b hb
        simp only [List.mem_append, List.mem_singleton] at ha hb
        rcases ha with ha | rfl <;> rcases hb with hb | rfl
        · exact h.hotKey a ha b hb
        · exact (hkey a ha).symm
        · exact hkey b hb
        · rfl
      · intro a ha c hc
        have hc' : c ∈ r.cold := hperm.subset (List.mem_cons_of_mem _ hc)
        simp only [List.mem_append, List.mem_singleton] at ha
        rcases ha with ha | rfl
        · exact h.coldKey a ha c hc'
        · exact Node.primaryKey_le_of_sortKey_le (Node.sortKey_le_of_popMin hpop hc')
    obtain ⟨hperm', hsettled, hout⟩ := ih hready
    exact ⟨hperm'.trans (by simpa using hperm.append_left r.hot), hsettled, hout⟩

/-- `reheap` puts the node back and leaves the heaps settled, when the hot nodes share a key
that neither the cold nodes nor the node go below. -/
lemma reheap_spec (r : MergeReader K V) (node : Option (Node K V)) (key : K)
    (hhot : ∀ a ∈ r.hot, a.primaryKey = key) (hcold : ∀ c ∈ r.cold, key ≤ c.primaryKey)
    (hnode : ∀ t ∈ node, key ≤ t.primaryKey) :
    ((r.reheap node).hot ++ (r.reheap node).cold).Perm (r.hot ++ r.cold ++ node.toList) ∧
      Settled (r.reheap node) ∧ (r.reheap node).outputBatch = r.outputBatch := by
  have hhotKey : ∀ a ∈ r.hot, ∀ b ∈ r.hot, a.primaryKey = b.primaryKey :=
    fun a ha b hb => (hhot a ha).trans (hhot b hb).symm
  cases node with
  | none =>
    simpa [reheap] using refillHot_spec r
      ⟨hhotKey, fun a ha c hc => (hhot a ha).symm ▸ hcold c hc⟩
  | some t =>
    have ht := hnode t rfl
    -- into the cold heap: every hot key stays at or below every cold key
    have hcoldCase : RefillReady { r with cold := r.cold ++ [t] } := by
      refine ⟨hhotKey, fun a ha c hc => ?_⟩
      rw [hhot a ha]
      simp only [List.mem_append, List.mem_singleton] at hc
      rcases hc with hc | rfl
      · exact hcold c hc
      · exact ht
    have hcoldPerm : (r.hot ++ (r.cold ++ [t])).Perm (r.hot ++ r.cold ++ [t]) := by simp
    rcases hpeek : peek Node.cmp r.hot with _ | hottest
    · simpa [reheap, hpeek, hcoldPerm] using refillHot_spec _ hcoldCase
    · by_cases hbehind : t.isBehind hottest = true
      · simpa [reheap, hpeek, hbehind, hcoldPerm] using refillHot_spec _ hcoldCase
      -- into the hot heap: the node is not behind the root, so it has the root's key
      · obtain ⟨others, hroot⟩ := peek_eq_some_iff.mp hpeek
        have hle : toLex (t.primaryKey, t.firstTs) ≤ toLex (hottest.primaryKey, hottest.lastTs) :=
          not_lt.mp fun hlt => hbehind (Node.isBehind_iff.mpr hlt)
        have htkey : t.primaryKey = key :=
          le_antisymm ((key_le_of_toLex_le hle).trans_eq (hhot _ (mem_of_popMin hroot))) ht
        have hhotCase : RefillReady { r with hot := r.hot ++ [t] } := by
          refine ⟨fun a ha b hb => ?_, fun a ha c hc => ?_⟩
          · simp only [List.mem_append, List.mem_singleton] at ha hb
            rcases ha with ha | rfl <;> rcases hb with hb | rfl
            · exact hhotKey a ha b hb
            · exact (hhot a ha).trans htkey.symm
            · exact htkey.trans (hhot b hb).symm
            · rfl
          · simp only [List.mem_append, List.mem_singleton] at ha
            rcases ha with ha | rfl
            · exact (hhot a ha).symm ▸ hcold c hc
            · exact htkey.symm ▸ hcold c hc
        have hhotPerm : (r.hot ++ [t] ++ r.cold).Perm (r.hot ++ r.cold ++ [t]) := by
          simpa using (List.perm_append_singleton t r.cold).symm.append_left r.hot
        have hreheap : r.reheap (some t) = { r with hot := r.hot ++ [t] }.refillHot := by
          simp [reheap, hpeek, hbehind]
        obtain ⟨hperm, hsettled, hout⟩ := refillHot_spec _ hhotCase
        rw [hreheap]
        exact ⟨hperm.trans hhotPerm, hsettled, hout⟩

/-! ## One output -/

/-- How many rows `fetch_rows_from_hottest` outputs when the next node starts at or after the
root's first timestamp `x`: at least one and at most all; either all of them are before `x`, or
it is the first row alone, at `x`. -/
lemma outputEnd_spec (t : Node K V) {x : ℤ} (hx : t.firstTs ≤ x) :
    0 < outputEnd t.current x ∧ outputEnd t.current x ≤ t.current.numRows ∧
      ((∀ y ∈ (t.current.slice 0 (outputEnd t.current x)).rows, y.ts < x) ∨
        (t.current.slice 0 (outputEnd t.current x)).rows = [t.firstRow]) := by
  -- the rows before `x`, and where the binary search stops
  set below := t.current.entries.takeWhile fun e => decide (e.ts < x) with hbelow
  have hsearch : binarySearch (t.current.entries.map Entry.ts) x =
      if (t.current.entries.map Entry.ts)[below.length]? = some x then .ok below.length
      else .error below.length := by
    simp only [binarySearch, List.takeWhile_map, List.length_map, hbelow]
    rfl
  have htake : t.current.entries.take below.length = below := by
    conv_lhs => rw [← List.takeWhile_append_dropWhile (p := fun e => decide (e.ts < x))
      (l := t.current.entries)]
    exact List.take_left' rfl
  have hle : below.length ≤ t.current.numRows := (List.takeWhile_sublist _).length_le
  have hentries := List.cons_head_tail t.current_ne
  rcases hx.lt_or_eq with hlt | heq
  -- the first row is before `x`: the rows before `x` go
  · have hne : 0 < below.length := by
      rw [hbelow, ← hentries, List.takeWhile_cons]
      simp [Node.firstTs, Node.firstEntry] at hlt ⊢
      simp [hlt]
    have hend : outputEnd t.current x = below.length := by
      unfold outputEnd
      rw [hsearch]
      split_ifs <;> simp [hne.ne']
    refine ⟨hend ▸ hne, hend ▸ hle, .inl fun y hy => ?_⟩
    rw [hend] at hy
    simp only [Batch.rows, Batch.slice_entries, List.drop_zero, htake, List.mem_map] at hy
    obtain ⟨e, he, rfl⟩ := hy
    simpa using List.mem_takeWhile_imp he
  -- the first row is at `x`: it goes alone
  · have hzero : below = [] := by
      rw [hbelow, ← hentries, List.takeWhile_cons]
      simp [Node.firstTs, Node.firstEntry] at heq ⊢
      simp [heq]
    have hfound : (t.current.entries.map Entry.ts)[0]? = some x := by
      rw [← hentries, List.map_cons, List.getElem?_cons_zero]
      exact congrArg some heq
    have hend : outputEnd t.current x = 1 := by
      unfold outputEnd
      rw [hsearch, hzero]
      simp [hfound]
    have hrows := t.numRows_pos
    refine ⟨by omega, by omega, .inr ?_⟩
    rw [hend, Batch.rows, Batch.slice_entries, List.drop_zero, ← hentries]
    rfl

lemma rows_eq_of_perm {r r' : MergeReader K V} {extra : List (Node K V)}
    (h : (r'.hot ++ r'.cold).Perm (r.hot ++ r.cold ++ extra)) :
    r'.rows.Perm (r.rows ++ extra.flatMap Node.rows) := by
  simpa [rows] using h.flatMap_right Node.rows

lemma flatMap_toList_rows (node : Option (Node K V)) :
    node.toList.flatMap Node.rows = Node.rowsOf node := by
  cases node <;> simp [Node.rowsOf]

/-- One round of fetching, from `r` to `r'`, that outputs `out`: a slice of an input batch with
rows, sorted and without a repeated timestamp, cut off the front of the rows the reader holds;
once the output is taken the reader is back in its invariant. -/
structure Emits (inputs : List (Batch K V)) (r r' : MergeReader K V) (out : Batch K V) :
    Prop where
  output : r'.outputBatch = some out
  inv : Inv inputs { r' with outputBatch := none }
  nonempty : out.entries ≠ []
  isSlice : IsSliceOf inputs out
  nodupTs : (out.entries.map Entry.ts).Nodup
  sorted : RowsSorted out.rows
  perm : (out.rows ++ r'.rows).Perm r.rows
  first : ∀ x ∈ out.rows, ∀ y ∈ r'.rows, Row.Precedes x y

/-- One output.  The hot root `t` gives up its first `e` rows, which come before the first row
of every other hot node.  They become the output, they precede every row left in the reader,
and the reader is back in its invariant. -/
lemma emit_spec {inputs : List (Batch K V)} (hinv : Inv inputs r) {t : Node K V}
    {others : List (Node K V)} (hpop : popMin Node.cmp r.hot = some (t, others)) {e : ℕ}
    (he : 0 < e) (he' : e ≤ t.current.numRows)
    (hsafe : ∀ x ∈ (t.current.slice 0 e).rows, ∀ m ∈ others, Row.Precedes x m.firstRow) :
    Emits inputs r
      ({ r with
          hot := others
          outputBatch := maybeOutputBatch (t.current.slice 0 e) r.outputBatch }.reheap
        (t.skipRows e))
      (t.current.slice 0 e) := by
  set out := t.current.slice 0 e with hout
  set r' := { r with hot := others, outputBatch := maybeOutputBatch out r.outputBatch }.reheap
    (t.skipRows e) with hr'
  have hout_ne : out.entries ≠ [] := by
    rw [hout, Batch.slice_entries, List.drop_zero, ← List.length_pos_iff_ne_nil, List.length_take]
    simp only [Batch.numRows] at he'
    omega
  have hmaybe : maybeOutputBatch out r.outputBatch = some out := by
    simp [maybeOutputBatch, Batch.isEmpty, hout_ne]
  have hperm_hot := popMin_perm hpop
  have htmem : t ∈ r.hot := mem_of_popMin hpop
  have hroot : t ∈ peek Node.cmp r.hot := peek_eq_some_iff.mpr ⟨others, hpop⟩
  have hothers : ∀ a ∈ others, a ∈ r.hot := fun a ha => hperm_hot.subset (List.mem_cons_of_mem _ ha)
  have htInputs := hinv.fromInputs t (List.mem_append_left _ htmem)
  -- the root's key bounds everything that goes back into the heaps
  obtain ⟨hperm, hsettled, houtput⟩ := reheap_spec
    { r with hot := others, outputBatch := maybeOutputBatch out r.outputBatch } (t.skipRows e)
    t.primaryKey (fun a ha => hinv.hotKey a (hothers a ha) t htmem)
    (fun c hc => Node.primaryKey_le_of_isBehind (hinv.coldBehind t hroot c hc))
    (fun t' ht' => Node.primaryKey_le_of_skipRows he' ht')
  have hrows' := rows_eq_of_perm hperm
  rw [flatMap_toList_rows] at hrows'
  have hsplit := t.rows_skipRows he'
  have hsorted : RowsSorted (out.rows ++ Node.rowsOf (t.skipRows e)) := by
    rw [hsplit]
    exact t.sorted_rows
  refine ⟨houtput.trans hmaybe, ⟨⟨hsettled.hotKey, hsettled.coldBehind, hsettled.coldNil⟩, ?_,
    rfl⟩, hout_ne, (htInputs _ List.mem_cons_self).slice 0 e, ?_,
    (List.pairwise_append.mp hsorted).1, ?_, ?_⟩
  -- the nodes still read slices of the inputs
  · intro n hn
    rcases List.mem_append.mp (hperm.subset hn) with hn | hn
    · rcases List.mem_append.mp hn with hn | hn
      · exact hinv.fromInputs n (List.mem_append_left _ (hothers n hn))
      · exact hinv.fromInputs n (List.mem_append_right _ hn)
    · exact Node.FromInputs.skipRows htInputs e (Option.mem_toList.mp hn)
  -- a slice of the current batch repeats no timestamp
  · exact (t.mergeSorted.nodupTs _ List.mem_cons_self).sublist
      ((t.current.slice_entries_sublist 0 e).map _)
  -- no row is lost or gained
  · have hr : r.rows.Perm (t.rows ++ (others.flatMap Node.rows ++ r.cold.flatMap Node.rows)) := by
      simpa [rows] using (hperm_hot.flatMap_right Node.rows).symm.append_right
        (r.cold.flatMap Node.rows)
    refine ((hrows'.append_left out.rows).trans ?_).trans hr.symm
    -- the rows left of the root move behind the other nodes' rows
    have hcomm : (others.flatMap Node.rows ++ r.cold.flatMap Node.rows ++
        Node.rowsOf (t.skipRows e)).Perm (Node.rowsOf (t.skipRows e) ++
          (others.flatMap Node.rows ++ r.cold.flatMap Node.rows)) := List.perm_append_comm
    rw [← hsplit]
    simpa only [rows, List.flatMap_append, List.append_assoc] using hcomm.append_left out.rows
  -- the output comes first
  · intro x hx y hy
    have hxcur : x ∈ t.current.rows := (t.current.rows_slice_sublist 0 e).subset hx
    rcases List.mem_append.mp (hrows'.subset hy) with hy | hy
    · simp only [rows, List.flatMap_append, List.mem_append, List.mem_flatMap] at hy
      rcases hy with ⟨m, hm, hym⟩ | ⟨c, hc, hyc⟩
      · exact (hsafe x hx m hm).trans (Node.firstRow_precedes hym)
      · -- a cold node is behind the whole current batch of the root
        have hbehind := Node.isBehind_iff.mp (hinv.coldBehind t hroot c hc)
        exact Row.precedes_of_timeKey_lt ((Node.timeKey_le_lastKey hxcur).trans_lt
          (hbehind.trans_le (Node.firstRow_precedes hyc).timeKey_le))
    · exact (List.pairwise_append.mp hsorted).2.2 x hx y hy

/-! ## One round of `next_batch` -/

lemma fetchBatchFromHottest_eq {t : Node K V} {others : List (Node K V)}
    (hpop : popMin Node.cmp r.hot = some (t, others)) :
    r.fetchBatchFromHottest =
      { r with
          hot := others
          outputBatch := maybeOutputBatch (t.current.slice 0 t.current.numRows) r.outputBatch }.reheap
        (t.skipRows t.current.numRows) := by
  rw [fetchBatchFromHottest, hpop, Batch.slice_zero_numRows,
    Node.skipRows_of_eq_zero (Nat.sub_self _)]
  rfl

lemma fetchRowsFromHottest_eq {t n : Node K V} {others : List (Node K V)}
    (hpop : popMin Node.cmp r.hot = some (t, others)) (hnext : peek Node.cmp others = some n) :
    r.fetchRowsFromHottest =
      { r with
          hot := others
          outputBatch := maybeOutputBatch (t.current.slice 0 (outputEnd t.current n.firstTs))
            r.outputBatch }.reheap
        (t.skipRows (outputEnd t.current n.firstTs)) := by
  simp only [fetchRowsFromHottest, hpop, hnext]

/-- With two hot nodes or more, the rows of the root that `fetch_rows_from_hottest` outputs
come before every other hot node, and there is at least one. -/
lemma outputEnd_precedes {inputs : List (Batch K V)} (hinv : Inv inputs r) {t n : Node K V}
    {others rest : List (Node K V)} (hpop : popMin Node.cmp r.hot = some (t, others))
    (hnext : popMin Node.cmp others = some (n, rest)) :
    0 < outputEnd t.current n.firstTs ∧ outputEnd t.current n.firstTs ≤ t.current.numRows ∧
      ∀ x ∈ (t.current.slice 0 (outputEnd t.current n.firstTs)).rows, ∀ m ∈ others,
        Row.Precedes x m.firstRow := by
  have hothers : ∀ a ∈ others, a ∈ r.hot :=
    fun a ha => (popMin_perm hpop).subset (List.mem_cons_of_mem _ ha)
  have htmem := mem_of_popMin hpop
  have hnmem := mem_of_popMin hnext
  -- the hot nodes share the root's key, so the heap order compares first timestamps
  have hkey : ∀ m ∈ others, t.primaryKey = m.primaryKey :=
    fun m hm => hinv.hotKey t htmem m (hothers m hm)
  have htn : t.firstTs ≤ n.firstTs :=
    Node.firstTs_le_of_sortKey_le (Node.sortKey_le_of_popMin hpop (hothers n hnmem))
      (hkey n hnmem)
  obtain ⟨hpos, hle, hrows⟩ := outputEnd_spec t htn
  refine ⟨hpos, hle, fun x hx m hm => ?_⟩
  rcases hrows with hbefore | hfirst
  -- a row before the next node's first timestamp is before every other hot node
  · have hnm : n.firstTs ≤ m.firstTs :=
      Node.firstTs_le_of_sortKey_le (Node.sortKey_le_of_popMin hnext hm)
        ((hkey n hnmem).symm.trans (hkey m hm))
    have hxkey : x.key = t.primaryKey :=
      Batch.key_of_mem_rows ((t.current.rows_slice_sublist 0 _).subset hx)
    apply Row.precedes_of_timeKey_lt
    rw [Node.firstRow_timeKey, Row.timeKey, hxkey, hkey m hm]
    exact Prod.Lex.toLex_lt_toLex.mpr (.inr ⟨rfl, (hbefore x hx).trans_le hnm⟩)
  -- the root's first row alone: the root is least in the hot heap
  · rw [hfirst, List.mem_singleton] at hx
    rw [hx]
    exact Node.precedes_firstRow_of_le (Node.sortKey_le_of_popMin hpop (hothers m hm))

/-- A round of `next_batch`'s loop on a reader with hot nodes outputs a batch. -/
lemma fetch_spec {inputs : List (Batch K V)} (hinv : Inv inputs r) (hhot : r.hot ≠ []) :
    ∃ out, Emits inputs r
      (if r.hot.length = 1 then r.fetchBatchFromHottest else r.fetchRowsFromHottest) out := by
  obtain ⟨⟨t, others⟩, hpop⟩ := Option.ne_none_iff_exists'.mp (mt popMin_eq_none_iff.mp hhot)
  have hlen := length_popMin hpop
  split_ifs with hone
  -- one hot node: its whole current batch goes
  · have hnil : others = [] := List.eq_nil_of_length_eq_zero (by omega)
    rw [fetchBatchFromHottest_eq hpop]
    exact ⟨_, emit_spec hinv hpop t.numRows_pos le_rfl (by simp [hnil])⟩
  -- more: the root's rows up to the next hot node go
  · have hne : others ≠ [] := by
      rintro rfl
      exact hone (by simpa using hlen.symm)
    obtain ⟨⟨n, rest⟩, hnext⟩ := Option.ne_none_iff_exists'.mp (mt popMin_eq_none_iff.mp hne)
    obtain ⟨hpos, hle, hsafe⟩ := outputEnd_precedes hinv hpop hnext
    rw [fetchRowsFromHottest_eq hpop (peek_eq_some_iff.mpr ⟨rest, hnext⟩)]
    exact ⟨_, emit_spec hinv hpop hpos hle hsafe⟩

/-- `next_batch` on a reader with hot nodes: two rounds of fuel output a batch. -/
lemma nextBatch_of_hot {inputs : List (Batch K V)} (hinv : Inv inputs r) (hhot : r.hot ≠ [])
    (fuel : ℕ) :
    ∃ out r₁, Emits inputs r r₁ out ∧
      nextBatch (fuel + 2) r = some (some out, { r₁ with outputBatch := none }) := by
  obtain ⟨out, hemit⟩ := fetch_spec hinv hhot
  refine ⟨out, _, hemit, ?_⟩
  have hempty : r.hot.isEmpty = false := List.isEmpty_eq_false_iff.mpr hhot
  simp only [nextBatch, fetchToOutput, hempty, hinv.noOutput, hemit.output, Option.isSome_none,
    Option.isSome_some, Bool.or_false, Bool.or_true, Bool.false_eq_true, if_false, if_true,
    Option.map_some]

/-- `next_batch` on a reader without hot nodes: the end of the stream. -/
lemma nextBatch_of_hot_eq_nil {inputs : List (Batch K V)} (hinv : Inv inputs r)
    (hhot : r.hot = []) (fuel : ℕ) : nextBatch (fuel + 1) r = some (none, r) := by
  obtain ⟨hot, cold, outputBatch⟩ := r
  obtain rfl : outputBatch = none := hinv.noOutput
  simp_all [nextBatch, fetchToOutput]

lemma rows_pos_of_hot (hhot : r.hot ≠ []) : 0 < r.rows.length := by
  obtain ⟨n, hn⟩ := List.exists_mem_of_ne_nil _ hhot
  have hmem : n.firstRow ∈ r.rows :=
    List.mem_flatMap.mpr ⟨n, List.mem_append_left _ hn, n.firstRow_mem_rows⟩
  exact List.length_pos_of_mem hmem

/-! ## The whole stream -/

/-- A consumer with more fuel than the reader holds rows reads every row once, in order, in
nonempty slices of the inputs. The induction is on the fuel; each batch output takes at least
one row off the reader (`Emits`). -/
lemma readAll_spec {inputs : List (Batch K V)} (fuel : ℕ) (r : MergeReader K V)
    (hinv : Inv inputs r) (hfuel : r.rows.length < fuel) :
    ∃ out, readAll fuel r = some out ∧ (out.flatMap Batch.rows).Perm r.rows ∧ MergeSorted out ∧
      ∀ o ∈ out, o.entries ≠ [] ∧ IsSliceOf inputs o := by
  induction fuel generalizing r with
  | zero => omega
  | succ fuel ih =>
    by_cases hhot : r.hot = []
    -- no hot node: the stream ends, and the reader holds nothing
    · have hcold := hinv.coldNil hhot
      refine ⟨[], ?_, ?_, ⟨List.Pairwise.nil, by simp⟩, by simp⟩
      · simp [readAll, nextBatch_of_hot_eq_nil hinv hhot]
      · simp [rows, hhot, hcold]
    -- a batch, then the rest of the stream from the reader it leaves
    · obtain ⟨k, rfl⟩ : ∃ k, fuel = k + 1 := ⟨fuel - 1, by have := rows_pos_of_hot hhot; omega⟩
      obtain ⟨out, r₁, hemit, hnext⟩ := nextBatch_of_hot hinv hhot k
      have hlen : out.rows.length + r₁.rows.length = r.rows.length := by
        simpa using hemit.perm.length_eq
      have hout : 0 < out.rows.length := by
        simpa [Batch.rows, List.length_pos_iff_ne_nil] using hemit.nonempty
      obtain ⟨outs, hread, hperm, hsorted, hslices⟩ :=
        ih { r₁ with outputBatch := none } hemit.inv (show r₁.rows.length < k + 1 by omega)
      refine ⟨out :: outs, ?_, ?_, ?_, ?_⟩
      · rw [readAll]
        simp [hnext, hread]
      · rw [List.flatMap_cons]
        exact (hperm.append_left out.rows).trans hemit.perm
      · exact MergeSorted.cons hemit.sorted hemit.nodupTs hsorted
          fun x hx y hy => hemit.first x hx y (hperm.subset hy)
      · intro o ho
        rcases List.mem_cons.mp ho with rfl | ho
        · exact ⟨hemit.nonempty, hemit.isSlice⟩
        · exact hslices o ho

/-- The rows of the sources with a batch are the rows of the sources. -/
lemma flatMap_rows_filterMap_new (sources : List (Source K V)) :
    (sources.filterMap Node.new).flatMap Node.rows =
      sources.flatMap fun s => s.batches.flatMap Batch.rows := by
  induction sources with
  | nil => rfl
  | cons s sources ih =>
    have hs : Node.rowsOf (Node.new s) = s.batches.flatMap Batch.rows :=
      Node.rowsOf_ofBatches _ _ _
    -- a source at EOF has no rows
    rcases hnew : Node.new s with _ | n
    · rw [hnew, Node.rowsOf] at hs
      simp [hnew, ih, ← hs]
    · rw [hnew, Node.rowsOf] at hs
      simp [hnew, ih, ← hs]

/-- `MergeReader::new` starts in the invariant, holding the rows of the sources. -/
lemma new_spec (sources : List (Source K V)) :
    Inv (sources.flatMap Source.batches) (new sources) ∧
      (new sources).rows.Perm (sources.flatMap fun s => s.batches.flatMap Batch.rows) := by
  obtain ⟨hperm, hsettled, hout⟩ :=
    refillHot_spec ⟨[], sources.filterMap Node.new, none⟩ ⟨by simp, by simp⟩
  refine ⟨⟨hsettled, fun n hn b hb => ?_, hout⟩, ?_⟩
  -- a node of `new` reads the batches of a source
  · obtain ⟨s, hs, hnew⟩ := List.mem_filterMap.mp (by simpa using hperm.subset hn)
    have hbatches : n.current :: n.rest = s.batches := Node.batches_of_mem_ofBatches hnew
    rw [hbatches] at hb
    exact IsSliceOf.of_mem (List.mem_flatMap.mpr ⟨s, hs, hb⟩)
  · rw [← flatMap_rows_filterMap_new]
    simpa [rows, new] using hperm.flatMap_right Node.rows

end MergeReader

/-- `MergeReader` merges.  A consumer that calls `next_batch` until it returns `None`, with one
call more than there are rows, gets every input row once, in `(primary key, timestamp asc,
sequence desc)` order; each batch is a nonempty slice of an input batch, and a
`(primary key, timestamp)` repeats only from the last row of one batch to the first of the
next. -/
theorem mergeReader_readAll_merges (sources : List (Source K V)) :
    let inputRows := sources.flatMap fun s => s.batches.flatMap Batch.rows
    ∃ out, MergeReader.readAll (inputRows.length + 1) (MergeReader.new sources) = some out ∧
      (out.flatMap Batch.rows).Perm inputRows ∧ MergeSorted out ∧
      (∀ o ∈ out, o.entries ≠ [] ∧
        ∃ s ∈ sources, ∃ b ∈ s.batches, ∃ offset length, o = b.slice offset length) ∧
      ∀ l₁ x y l₂, out.flatMap Batch.rows = l₁ ++ x :: y :: l₂ → x.timeKey = y.timeKey →
        ∃ k, (out.take k).flatMap Batch.rows = l₁ ++ [x] := by
  intro inputRows
  obtain ⟨hinv, hrows⟩ := MergeReader.new_spec sources
  obtain ⟨out, hread, hperm, hsorted, hslices⟩ :=
    MergeReader.readAll_spec (inputRows.length + 1) _ hinv
      (by rw [hrows.length_eq]; exact Nat.lt_succ_self _)
  refine ⟨out, hread, hperm.trans hrows, hsorted, fun o ho => ?_, fun l₁ x y l₂ hsplit hxy => ?_⟩
  -- a slice of a batch of one source
  · obtain ⟨hne, b, hb, offset, length, rfl⟩ := hslices o ho
    obtain ⟨s, hs, hb⟩ := List.mem_flatMap.mp hb
    exact ⟨hne, s, hs, b, hb, offset, length, rfl⟩
  -- no batch repeats a `(primary key, timestamp)`, so a repeat straddles two batches
  · have hchain : ∀ l ∈ out.map Batch.rows, l.IsChain fun a b => a.timeKey ≠ b.timeKey := by
      intro l hl
      obtain ⟨o, ho, rfl⟩ := List.mem_map.mp hl
      exact (Batch.rows_pairwise_ne (hsorted.nodupTs o ho)).isChain
    rw [List.flatMap_def] at hsplit
    obtain ⟨k, hk⟩ := exists_take_flatten_of_adjacent Row.timeKey hchain hsplit hxy
    exact ⟨k, by rw [List.flatMap_def, List.map_take, hk]⟩

end Greptime
