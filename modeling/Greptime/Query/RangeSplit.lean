import Greptime.Query.TimeRange
import Greptime.Foundations.SortedMap
import Mathlib.Data.List.Induction

/-!
# Cutting the partition ranges into pieces (`split_overlapping_ranges`)

Before it sorts, the windowed sort cuts the ranges of one partition of its scanner into pieces
that do not overlap, and records for each piece the positions of the ranges over it.  The
source keeps the pieces in a `BTreeMap` keyed by range, and adds the ranges one by one: the
pieces that overlap the new range (found by two range queries from its key, one forward and
one backward) are split into their intersection with it, which gains its index, and their
parts outside it; the parts of the new range that no piece covered are added with its index
alone.

`splitOverlappingRanges_spec` says what comes out when every range holds a point: the pieces
are proper ranges that share no point, in key order (`Apart`), every point of every range is
in a piece, and the indices of a piece are exactly the ranges that hold its points
(`SplitOf`).  The step is `splitStep_spec`; it rests on three facts: the two range queries
find every piece that overlaps the new range (`mem_overlapping`), the pushes and pops of
`split_range_by` replace each of them by its parts (`applyActions_spec`), and the untouched
parts are the points of the new range that no piece had (`untouched_spec`).

A range whose start is its end holds no point but still splits a piece it falls inside of;
such ranges are outside the hypotheses here.  The windowed sort shows what they do: an empty
range cuts a working range in two under a range that reaches across it.
-/

namespace Greptime

namespace WindowSort

open TimeRange

/-- The bounds of a `PartitionRange`, the ranges the scanner reads one after the other.  Its
row count and identifier are not read by the windowed sort. -/
structure PartitionRange where
  start : ℤ
  «end» : ℤ
  deriving DecidableEq, Repr

/-- `TimeRange::from(&PartitionRange)`. -/
def PartitionRange.timeRange (r : PartitionRange) : TimeRange := TimeRange.new r.start r.end

lemma PartitionRange.timeRange_of_lt {r : PartitionRange} (h : r.start < r.end) :
    r.timeRange = ⟨r.start, r.end⟩ :=
  TimeRange.new_of_le (le_of_lt h)

lemma PartitionRange.proper_timeRange {r : PartitionRange} (h : r.start < r.end) :
    r.timeRange.Proper := by
  rw [PartitionRange.timeRange_of_lt h]
  exact h

/-- The pushes and pops `split_range_by` asks of the map. -/
inductive Action
  | pop (range : TimeRange)
  | push (range : TimeRange) (parts : List ℕ)
  deriving DecidableEq, Repr

/-- `split_range_by`: a piece that overlaps the new range is popped, and its intersection with
the new range is pushed with the new index, its parts outside with its own indices. -/
def splitRangeBy (inputRange : TimeRange) (inputParts : List ℕ) (splitBy : TimeRange)
    (splitIdx : ℕ) : List Action :=
  if inputRange.isOverlapping splitBy then
    let newParts := inputParts ++ [splitIdx]
    [.pop inputRange] ++ ((inputRange.intersection splitBy).map fun i => .push i newParts).toList ++
      (inputRange.difference splitBy).map fun d => .push d inputParts
  else []

/-- What an action does to the map. -/
def Action.apply (ret : List (TimeRange × List ℕ)) : Action → List (TimeRange × List ℕ)
  | pop range => SortedMap.erase compare range ret
  | push range parts => SortedMap.insert compare range parts ret

/-- The pieces the loop of `split_overlapping_ranges` visits for `key`: forward from the key
while they overlap it, then backward from it while they overlap it. -/
def overlapping (ret : List (TimeRange × List ℕ)) (key : TimeRange) :
    List (TimeRange × List ℕ) :=
  (SortedMap.rangeFrom compare key ret).takeWhile (fun x => x.1.isOverlapping key) ++
    (SortedMap.rangeBelow compare key ret).reverse.takeWhile fun x => x.1.isOverlapping key

/-- One turn of the loop of `split_overlapping_ranges`, for the range at `idx` with bounds
`key`: one pass over the overlapping pieces computes the untouched parts of `key` and the
actions, then the actions are applied and the untouched parts inserted. -/
def splitStep (ret : List (TimeRange × List ℕ)) (idx : ℕ) (key : TimeRange) :
    List (TimeRange × List ℕ) :=
  let acc := (overlapping ret key).foldl
    (fun acc x => (acc.1.flatMap (·.difference x.1), acc.2 ++ splitRangeBy x.1 x.2 key idx))
    ([key], [])
  let ret := acc.2.foldl Action.apply ret
  acc.1.foldl (fun ret range => SortedMap.insert compare range [idx] ret) ret

/-- `split_overlapping_ranges`: the pieces of the ranges, with the positions of the ranges
over each. -/
def splitOverlappingRanges (ranges : List PartitionRange) : List (TimeRange × List ℕ) :=
  ranges.zipIdx.foldl (fun ret x => splitStep ret x.2 x.1.timeRange) []

lemma splitOverlappingRanges_append_singleton (ranges : List PartitionRange) (r : PartitionRange) :
    splitOverlappingRanges (ranges ++ [r]) =
      splitStep (splitOverlappingRanges ranges) ranges.length r.timeRange := by
  simp [splitOverlappingRanges, List.zipIdx_append]

/-! ## Maps of pieces apart from each other -/

/-- A map whose pieces are proper ranges that share no point, in key order. -/
structure Apart (m : List (TimeRange × List ℕ)) : Prop where
  sorted : SortedMap.Sorted m
  proper : ∀ x ∈ m, x.1.Proper
  apart : ∀ x ∈ m, ∀ y ∈ m, ∀ t, t ∈ x.1 → t ∈ y.1 → x = y

/-- No piece of the map holds a point of `k`. -/
def Free (m : List (TimeRange × List ℕ)) (k : TimeRange) : Prop := ∀ x ∈ m, ∀ t ∈ k, t ∉ x.1

section Apart

variable {m : List (TimeRange × List ℕ)} {k : TimeRange} {v : List ℕ}

lemma Apart.nil : Apart [] := ⟨List.Pairwise.nil, by simp, by simp⟩

lemma start_mem_of_proper (hk : k.Proper) : k.start ∈ k := ⟨le_refl _, hk⟩

lemma Free.ne (hf : Free m k) (hk : k.Proper) {x : TimeRange × List ℕ} (hx : x ∈ m) : x.1 ≠ k :=
  fun h => hf x hx k.start (start_mem_of_proper hk) (by rw [h]; exact start_mem_of_proper hk)

lemma mem_insert_of_free (hm : Apart m) (hk : k.Proper) (hf : Free m k)
    {x : TimeRange × List ℕ} : x ∈ SortedMap.insert compare k v m ↔ x = (k, v) ∨ x ∈ m := by
  rw [SortedMap.mem_insert_iff hm.sorted]
  constructor
  · rintro (h | ⟨h, -⟩)
    · exact .inl h
    · exact .inr h
  · rintro (h | h)
    · exact .inl h
    · exact .inr ⟨h, hf.ne hk h⟩

lemma Apart.insert (hm : Apart m) (hk : k.Proper) (hf : Free m k) :
    Apart (SortedMap.insert compare k v m) := by
  refine ⟨SortedMap.sorted_insert hm.sorted, fun x hx => ?_, fun x hx y hy t htx hty => ?_⟩
  · rcases (mem_insert_of_free hm hk hf).mp hx with rfl | hx
    · exact hk
    · exact hm.proper x hx
  · rcases (mem_insert_of_free hm hk hf).mp hx with rfl | hx <;>
      rcases (mem_insert_of_free hm hk hf).mp hy with rfl | hy
    · rfl
    · exact absurd hty (hf y hy t htx)
    · exact absurd htx (hf x hx t hty)
    · exact hm.apart x hx y hy t htx hty

lemma mem_erase_of_apart (hm : Apart m) {x : TimeRange × List ℕ} :
    x ∈ SortedMap.erase compare k m ↔ x ∈ m ∧ x.1 ≠ k :=
  SortedMap.mem_erase_iff hm.sorted

lemma Apart.erase (hm : Apart m) : Apart (SortedMap.erase compare k m) :=
  ⟨SortedMap.sorted_erase hm.sorted, fun x hx => hm.proper x ((mem_erase_of_apart hm).mp hx).1,
    fun x hx y hy => hm.apart x ((mem_erase_of_apart hm).mp hx).1 y ((mem_erase_of_apart hm).mp hy).1⟩

/-- Inserting entries that share no point with each other nor with the map. -/
lemma Apart.foldl_insert {ps : List (TimeRange × List ℕ)} (hm : Apart m)
    (hps : ∀ p ∈ ps, p.1.Proper) (hpair : ps.Pairwise fun p q => ∀ t ∈ p.1, t ∉ q.1)
    (hfree : ∀ p ∈ ps, Free m p.1) :
    Apart (ps.foldl (fun l p => SortedMap.insert compare p.1 p.2 l) m) ∧
      ∀ x, x ∈ ps.foldl (fun l p => SortedMap.insert compare p.1 p.2 l) m ↔ x ∈ m ∨ x ∈ ps := by
  induction ps generalizing m with
  | nil => simp [hm]
  | cons p ps ih =>
    have hp := hps p List.mem_cons_self
    have hf := hfree p List.mem_cons_self
    have hm' : Apart (SortedMap.insert compare p.1 p.2 m) := hm.insert hp hf
    -- the entries after `p` are free in the map with `p`: `p` shares no point with them
    have hfree' : ∀ q ∈ ps, Free (SortedMap.insert compare p.1 p.2 m) q.1 := by
      intro q hq x hx t htq htx
      rcases (mem_insert_of_free hm hp hf).mp hx with rfl | hx
      · exact List.rel_of_pairwise_cons hpair hq t htx htq
      · exact hfree q (List.mem_cons_of_mem _ hq) x hx t htq htx
    obtain ⟨ha, hmem⟩ := ih hm' (fun q hq => hps q (List.mem_cons_of_mem _ hq)) hpair.of_cons hfree'
    refine ⟨ha, fun x => ?_⟩
    rw [List.foldl_cons, hmem, mem_insert_of_free hm hp hf, List.mem_cons, Prod.mk.eta]
    constructor
    · rintro ((h | h) | h)
      · exact .inr (.inl h)
      · exact .inl h
      · exact .inr (.inr h)
    · rintro (h | h | h)
      · exact .inl (.inr h)
      · exact .inl (.inl h)
      · exact .inr h

/-- Pieces that share no point, sorted by key, are in the order of their points. -/
lemma Apart.pairwise (hm : Apart m) : m.Pairwise fun x y => x.1.end ≤ y.1.start := by
  refine hm.sorted.imp_of_mem fun {x y} hx hy hxy => ?_
  by_contra hlt
  rw [not_le] at hlt
  have hne : x ≠ y := fun h => lt_irrefl _ (h ▸ hxy)
  have hy' := hm.proper y hy
  have hstart : x.1.start ≤ y.1.start := by
    rcases TimeRange.lt_iff.mp hxy with h | ⟨h, -⟩
    · exact le_of_lt h
    · exact le_of_eq h
  exact hne (hm.apart x hx y hy y.1.start ⟨hstart, hlt⟩ (start_mem_of_proper hy'))

end Apart

/-! ## The pieces the new range overlaps -/

lemma takeWhile_eq_filter {α : Type} {p : α → Bool} {l : List α}
    (h : l.Pairwise fun a b => p a = false → p b = false) : l.takeWhile p = l.filter p := by
  induction l with
  | nil => rfl
  | cons a l ih =>
    cases ha : p a with
    | true => simp [ha, ih h.of_cons]
    | false =>
      have hnil : l.filter p = [] := List.filter_eq_nil_iff.mpr fun b hb => by
        simp [List.rel_of_pairwise_cons h hb ha]
      simp [ha, hnil]

section Overlapping

variable {m : List (TimeRange × List ℕ)} {key : TimeRange}

/-- Forward from the key, the first piece that does not overlap it starts at its end or later,
and so do the pieces after it. -/
lemma takeWhile_rangeFrom (hm : Apart m) :
    (SortedMap.rangeFrom compare key m).takeWhile (fun x => x.1.isOverlapping key) =
      (SortedMap.rangeFrom compare key m).filter fun x => x.1.isOverlapping key := by
  have hsub : (SortedMap.rangeFrom compare key m).Sublist m := List.filter_sublist
  refine takeWhile_eq_filter ((hm.pairwise.sublist hsub).imp_of_mem ?_)
  intro a b ha hb hab hoa
  rw [SortedMap.mem_rangeFrom] at ha hb
  have hka := TimeRange.le_iff.mp ha.2
  have hpa := hm.proper a ha.1
  have hpb := hm.proper b hb.1
  rw [Bool.eq_false_iff, ne_eq, isOverlapping_iff] at hoa ⊢
  unfold Proper at hpa hpb
  omega

/-- Backward from the key, the first piece that does not overlap it ends at its start or
earlier, and so do the pieces before it. -/
lemma takeWhile_rangeBelow (hm : Apart m) :
    (SortedMap.rangeBelow compare key m).reverse.takeWhile (fun x => x.1.isOverlapping key) =
      (SortedMap.rangeBelow compare key m).reverse.filter fun x => x.1.isOverlapping key := by
  have hsub : (SortedMap.rangeBelow compare key m).Sublist m := List.filter_sublist
  refine takeWhile_eq_filter (List.pairwise_reverse.mpr ((hm.pairwise.sublist hsub).imp_of_mem ?_))
  intro a b ha hb hab hob
  rw [SortedMap.mem_rangeBelow] at ha hb
  have hkb := TimeRange.lt_iff.mp hb.2
  have hpa := hm.proper a ha.1
  have hpb := hm.proper b hb.1
  rw [Bool.eq_false_iff, ne_eq, isOverlapping_iff] at hob ⊢
  unfold Proper at hpa hpb
  omega

/-- The two range queries find exactly the pieces that overlap the new range. -/
lemma mem_overlapping (hm : Apart m) {x : TimeRange × List ℕ} :
    x ∈ overlapping m key ↔ x ∈ m ∧ x.1.isOverlapping key := by
  rw [overlapping, takeWhile_rangeFrom hm, takeWhile_rangeBelow hm, List.mem_append,
    List.mem_filter, List.mem_filter, List.mem_reverse, SortedMap.mem_rangeFrom,
    SortedMap.mem_rangeBelow]
  constructor
  · rintro (⟨⟨hx, -⟩, ho⟩ | ⟨⟨hx, -⟩, ho⟩)
    · exact ⟨hx, ho⟩
    · exact ⟨hx, ho⟩
  · rintro ⟨hx, ho⟩
    rcases le_or_gt key x.1 with h | h
    · exact .inl ⟨⟨hx, h⟩, ho⟩
    · exact .inr ⟨⟨hx, h⟩, ho⟩

lemma nodup_overlapping (hm : Apart m) : (overlapping m key).Nodup := by
  have hnd : m.Nodup := hm.sorted.imp fun {a b} h => by
    rintro rfl
    exact lt_irrefl _ h
  rw [overlapping, List.nodup_append]
  refine ⟨(hnd.sublist List.filter_sublist).sublist (List.takeWhile_sublist _),
    (List.pairwise_reverse.mpr ((hnd.sublist List.filter_sublist).imp Ne.symm)).sublist
      (List.takeWhile_sublist _), fun a ha b hb hab => ?_⟩
  have ha' := SortedMap.mem_rangeFrom.mp ((List.takeWhile_sublist _).subset ha)
  have hb' := SortedMap.mem_rangeBelow.mp (List.mem_reverse.mp ((List.takeWhile_sublist _).subset hb))
  subst hab
  exact absurd ha'.2 (not_le.mpr hb'.2)

end Overlapping


/-! ## What `split_range_by` leaves of a piece -/

/-- The entries `split_range_by` pushes for the piece `y`: its intersection with `key`, with
the new index, and its parts outside `key`, with its own indices. -/
def piecesOf (y : TimeRange × List ℕ) (key : TimeRange) (idx : ℕ) : List (TimeRange × List ℕ) :=
  ((y.1.intersection key).map fun i => (i, y.2 ++ [idx])).toList ++
    (y.1.difference key).map fun d => (d, y.2)

section Pieces

variable {y : TimeRange × List ℕ} {key : TimeRange} {idx : ℕ}

lemma splitRangeBy_of_isOverlapping (h : y.1.isOverlapping key) :
    splitRangeBy y.1 y.2 key idx = .pop y.1 :: (piecesOf y key idx).map fun p => .push p.1 p.2 := by
  unfold splitRangeBy piecesOf
  rw [if_pos h]
  cases y.1.intersection key <;> simp

/-- The actions of an overlapping piece: pop it, then insert its parts. -/
lemma foldl_splitRangeBy (h : y.1.isOverlapping key) (l : List (TimeRange × List ℕ)) :
    (splitRangeBy y.1 y.2 key idx).foldl Action.apply l =
      (piecesOf y key idx).foldl (fun l p => SortedMap.insert compare p.1 p.2 l)
        (SortedMap.erase compare y.1 l) := by
  rw [splitRangeBy_of_isOverlapping h, List.foldl_cons, List.foldl_map]
  rfl

lemma not_mem_of_end_le {a b : TimeRange} (h : a.end ≤ b.start) {t : ℤ} (ha : t ∈ a) : t ∉ b := by
  rw [mem_def] at ha ⊢
  omega

/-- The parts of a piece lie in it. -/
lemma mem_of_mem_piecesOf {p : TimeRange × List ℕ} (hy : y.1.Valid) (hk : key.Valid)
    (hp : p ∈ piecesOf y key idx) {t : ℤ} (ht : t ∈ p.1) : t ∈ y.1 := by
  rcases List.mem_append.mp hp with hp | hp
  · cases hi : y.1.intersection key with
    | none => simp [hi] at hp
    | some i =>
      simp only [hi, Option.map_some, Option.toList_some, List.mem_singleton] at hp
      subst hp
      exact ((mem_intersection hy hk hi).mp ht).1
  · obtain ⟨d, hd, rfl⟩ := List.mem_map.mp hp
    exact mem_of_mem_difference hd ht

/-- The indices of a part: those of the piece, and the new one where the part is inside `key`. -/
lemma parts_of_mem_piecesOf {p : TimeRange × List ℕ} (hy : y.1.Valid) (hk : key.Valid)
    (hp : p ∈ piecesOf y key idx) {t : ℤ} (ht : t ∈ p.1) :
    (t ∈ key → p.2 = y.2 ++ [idx]) ∧ (t ∉ key → p.2 = y.2) := by
  rcases List.mem_append.mp hp with hp | hp
  · cases hi : y.1.intersection key with
    | none => simp [hi] at hp
    | some i =>
      simp only [hi, Option.map_some, Option.toList_some, List.mem_singleton] at hp
      subst hp
      exact ⟨fun _ => rfl, fun hnk => absurd ((mem_intersection hy hk hi).mp ht).2 hnk⟩
  · obtain ⟨d, hd, rfl⟩ := List.mem_map.mp hp
    exact ⟨fun htk => absurd htk (exists_mem_difference_iff.mp ⟨d, hd, ht⟩).2, fun _ => rfl⟩

/-- Every point of a piece is in one of its parts. -/
lemma exists_mem_piecesOf (idx : ℕ) (hy : y.1.Valid) (hk : key.Valid) {t : ℤ} (ht : t ∈ y.1) :
    ∃ p ∈ piecesOf y key idx, t ∈ p.1 := by
  by_cases htk : t ∈ key
  · obtain ⟨i, hi⟩ : ∃ i, y.1.intersection key = some i := by
      cases hi : y.1.intersection key with
      | none =>
        rw [intersection_eq_none_iff, isOverlapping_of_mem ht htk] at hi
        cases hi
      | some i => exact ⟨i, rfl⟩
    exact ⟨(i, y.2 ++ [idx]), by simp [piecesOf, hi], (mem_intersection hy hk hi).mpr ⟨ht, htk⟩⟩
  · obtain ⟨d, hd, htd⟩ := exists_mem_difference_iff.mpr ⟨ht, htk⟩
    exact ⟨(d, y.2), List.mem_append_right _ (List.mem_map_of_mem hd), htd⟩

lemma proper_of_mem_piecesOf {p : TimeRange × List ℕ} (hy : y.1.Proper) (hk : key.Proper)
    (hp : p ∈ piecesOf y key idx) : p.1.Proper := by
  rcases List.mem_append.mp hp with hp | hp
  · cases hi : y.1.intersection key with
    | none => simp [hi] at hp
    | some i =>
      simp only [hi, Option.map_some, Option.toList_some, List.mem_singleton] at hp
      subst hp
      obtain ⟨hs, he⟩ := start_intersection hy.valid hk.valid hi
      have hov : y.1.isOverlapping key := by
        by_contra hno
        rw [Bool.not_eq_true, ← intersection_eq_none_iff] at hno
        rw [hno] at hi
        cases hi
      rw [isOverlapping_iff] at hov
      show i.start < i.end
      rw [hs, he]
      unfold Proper at hy hk
      omega
  · obtain ⟨d, hd, rfl⟩ := List.mem_map.mp hp
    exact proper_of_mem_difference hy hd

/-- The parts of a piece share no point. -/
lemma piecesOf_pairwise (hy : y.1.Valid) (hk : key.Valid) :
    (piecesOf y key idx).Pairwise fun p q => ∀ t ∈ p.1, t ∉ q.1 := by
  unfold piecesOf
  rw [List.pairwise_append]
  refine ⟨?_, ?_, ?_⟩
  · cases y.1.intersection key <;> simp
  · rw [List.pairwise_map]
    exact (difference_pairwise hk).imp fun h t ht => not_mem_of_end_le h ht
  · intro p hp q hq t htp htq
    cases hi : y.1.intersection key with
    | none => simp [hi] at hp
    | some i =>
      simp only [hi, Option.map_some, Option.toList_some, List.mem_singleton] at hp
      subst hp
      obtain ⟨d, hd, rfl⟩ := List.mem_map.mp hq
      exact (exists_mem_difference_iff.mp ⟨d, hd, htq⟩).2 ((mem_intersection hy hk hi).mp htp).2

end Pieces


/-! ## One turn of the loop -/

section Step

variable {m : List (TimeRange × List ℕ)} {key : TimeRange} {idx : ℕ}

/-- The one pass of the loop computes the untouched parts and the actions side by side. -/
lemma foldl_acc (T : List (TimeRange × List ℕ)) (u : List TimeRange) (a : List Action) :
    T.foldl (fun acc x => (acc.1.flatMap (·.difference x.1), acc.2 ++ splitRangeBy x.1 x.2 key idx))
      (u, a) = (T.foldl (fun u x => u.flatMap (·.difference x.1)) u,
        a ++ T.flatMap fun x => splitRangeBy x.1 x.2 key idx) := by
  induction T generalizing u a with
  | nil => simp
  | cons x T ih => simp [ih, List.append_assoc]

/-- The actions of the overlapping pieces `P` replace each of them by its parts.  The
induction adds one piece at the end of `P`; the piece is still in the map then, since the
pieces before it share no point with it. -/
lemma applyActions_spec (idx : ℕ) (hm : Apart m) (P : List (TimeRange × List ℕ)) (hP : P.Nodup)
    (hPm : ∀ y ∈ P, y ∈ m ∧ y.1.isOverlapping key) (hk : key.Proper) :
    Apart ((P.flatMap fun y => splitRangeBy y.1 y.2 key idx).foldl Action.apply m) ∧
      ∀ x, x ∈ (P.flatMap fun y => splitRangeBy y.1 y.2 key idx).foldl Action.apply m ↔
        (x ∈ m ∧ x ∉ P) ∨ ∃ y ∈ P, x ∈ piecesOf y key idx := by
  induction P using List.reverseRecOn with
  | nil => simp [hm]
  | append_singleton P y ih =>
    have hPy : ∀ z ∈ P, z ∈ m ∧ z.1.isOverlapping key := fun z hz =>
      hPm z (List.mem_append_left _ hz)
    have hy := hPm y (List.mem_append_right _ List.mem_cons_self)
    have hyP : y ∉ P := fun h => (List.nodup_append.mp hP).2.2 y h y List.mem_cons_self rfl
    obtain ⟨ha, hmem⟩ := ih (List.nodup_append.mp hP).1 hPy
    have hyp : y.1.Proper := hm.proper y hy.1
    -- a part of `y` is inside `y`, which no piece left in the map shares a point with
    have hfree : ∀ p ∈ piecesOf y key idx, Free (SortedMap.erase compare y.1
        ((P.flatMap fun y => splitRangeBy y.1 y.2 key idx).foldl Action.apply m)) p.1 := by
      intro p hp x hx t htp htx
      have hty := mem_of_mem_piecesOf hyp.valid hk.valid hp htp
      obtain ⟨hx, hxy⟩ := (mem_erase_of_apart ha).mp hx
      rcases (hmem x).mp hx with ⟨hxm, -⟩ | ⟨z, hz, hxz⟩
      · exact hxy (congrArg Prod.fst (hm.apart x hxm y hy.1 t htx hty))
      · have hzp := hm.proper z (hPy z hz).1
        have htz := mem_of_mem_piecesOf hzp.valid hk.valid hxz htx
        exact hyP (hm.apart z (hPy z hz).1 y hy.1 t htz hty ▸ hz)
    rw [List.flatMap_append, List.foldl_append, List.flatMap_singleton, foldl_splitRangeBy hy.2]
    obtain ⟨ha', hmem'⟩ := ha.erase.foldl_insert
      (fun p hp => proper_of_mem_piecesOf hyp hk hp) (piecesOf_pairwise hyp.valid hk.valid) hfree
    refine ⟨ha', fun x => ?_⟩
    rw [hmem', mem_erase_of_apart ha, hmem, List.mem_append, List.mem_singleton]
    constructor
    · rintro (⟨⟨hxm, hxP⟩ | ⟨z, hz, hxz⟩, hxy⟩ | hxy)
      · exact .inl ⟨hxm, fun h => h.elim hxP fun he => hxy (he ▸ rfl)⟩
      · exact .inr ⟨z, List.mem_append_left _ hz, hxz⟩
      · exact .inr ⟨y, List.mem_append_right _ List.mem_cons_self, hxy⟩
    · rintro (⟨hxm, hxP⟩ | ⟨z, hz, hxz⟩)
      · refine .inl ⟨.inl ⟨hxm, fun h => hxP (.inl h)⟩, fun he => hxP (.inr ?_)⟩
        exact hm.sorted.eq_of_fst_eq hxm hy.1 he
      · rcases List.mem_append.mp hz with hz | hz
        · refine .inl ⟨.inr ⟨z, hz, hxz⟩, fun he => hyP ?_⟩
          -- a part of `z` with the key of `y` shares the start of `y` with `z`
          have hzp := hm.proper z (hPy z hz).1
          have hts : y.1.start ∈ x.1 := by
            rw [he]
            exact start_mem_of_proper hyp
          have htz := mem_of_mem_piecesOf hzp.valid hk.valid hxz hts
          exact hm.apart z (hPy z hz).1 y hy.1 _ htz (start_mem_of_proper hyp) ▸ hz
        · rw [List.mem_singleton] at hz
          exact .inr (hz ▸ hxz)

/-- A proper range whose points are in `u` lies between the bounds of `u`. -/
lemma bounds_of_forall_mem {a u : TimeRange} (ha : a.Proper) (h : ∀ t ∈ a, t ∈ u) :
    u.start ≤ a.start ∧ a.end ≤ u.end := by
  have h₁ := h a.start (start_mem_of_proper ha)
  have h₂ := h (a.end - 1) ⟨by unfold Proper at ha; omega, by omega⟩
  rw [mem_def] at h₁ h₂
  omega

/-- The untouched parts of the new range are proper, in order, and hold the points of the
range that no overlapping piece holds. -/
lemma untouched_spec (T : List (TimeRange × List ℕ)) (hT : ∀ x ∈ T, x.1.Valid) (u : List TimeRange)
    (hu : ∀ r ∈ u, r.Proper) (hpair : u.Pairwise fun a b => a.end ≤ b.start) :
    (∀ r ∈ T.foldl (fun u x => u.flatMap (·.difference x.1)) u, r.Proper) ∧
      (T.foldl (fun u x => u.flatMap (·.difference x.1)) u).Pairwise (fun a b => a.end ≤ b.start) ∧
      ∀ t, (∃ r ∈ T.foldl (fun u x => u.flatMap (·.difference x.1)) u, t ∈ r) ↔
        (∃ r ∈ u, t ∈ r) ∧ ∀ x ∈ T, t ∉ x.1 := by
  induction T generalizing u with
  | nil => exact ⟨hu, hpair, fun t => by simp⟩
  | cons x T ih =>
    have hx := hT x List.mem_cons_self
    have hu' : ∀ r ∈ u.flatMap (·.difference x.1), r.Proper := by
      intro r hr
      obtain ⟨a, ha, hr⟩ := List.mem_flatMap.mp hr
      exact proper_of_mem_difference (hu a ha) hr
    -- parts of an earlier range end before parts of a later one start
    have hpair' : (u.flatMap (·.difference x.1)).Pairwise fun a b => a.end ≤ b.start := by
      refine List.pairwise_flatMap.mpr ⟨fun a _ => difference_pairwise hx, ?_⟩
      refine hpair.imp_of_mem fun {a b} ha hb hab c hc d hd => ?_
      have hcb := bounds_of_forall_mem (proper_of_mem_difference (hu a ha) hc)
        fun t ht => mem_of_mem_difference hc ht
      have hdb := bounds_of_forall_mem (proper_of_mem_difference (hu b hb) hd)
        fun t ht => mem_of_mem_difference hd ht
      omega
    obtain ⟨h₁, h₂, h₃⟩ := ih (fun y hy => hT y (List.mem_cons_of_mem _ hy)) _ hu' hpair'
    refine ⟨h₁, h₂, fun t => ?_⟩
    rw [List.foldl_cons, h₃]
    constructor
    · rintro ⟨⟨r, hr, htr⟩, hT'⟩
      obtain ⟨a, ha, hr⟩ := List.mem_flatMap.mp hr
      obtain ⟨hta, htx⟩ := exists_mem_difference_iff.mp ⟨r, hr, htr⟩
      refine ⟨⟨a, ha, hta⟩, fun y hy => ?_⟩
      rcases List.mem_cons.mp hy with rfl | hy
      · exact htx
      · exact hT' y hy
    · rintro ⟨⟨a, ha, hta⟩, hT'⟩
      obtain ⟨r, hr, htr⟩ := exists_mem_difference_iff.mpr ⟨hta, hT' x List.mem_cons_self⟩
      exact ⟨⟨r, List.mem_flatMap.mpr ⟨a, ha, hr⟩, htr⟩,
        fun y hy => hT' y (List.mem_cons_of_mem _ hy)⟩

end Step


/-! ## The pieces of all ranges -/

/-- What the map says of the ranges `keys`: its pieces share no point, the indices of a piece
are the positions of the ranges over its points, and every point of every range is in a
piece. -/
structure SplitOf (keys : List TimeRange) (m : List (TimeRange × List ℕ)) : Prop
    extends Apart m where
  parts : ∀ x ∈ m, ∀ t ∈ x.1, ∀ i, i ∈ x.2 ↔ ∃ r, keys[i]? = some r ∧ t ∈ r
  covers : ∀ r ∈ keys, ∀ t ∈ r, ∃ x ∈ m, t ∈ x.1

lemma exists_getElem?_append_singleton {keys : List TimeRange} {key : TimeRange} {i : ℕ} {t : ℤ} :
    (∃ r, (keys ++ [key])[i]? = some r ∧ t ∈ r) ↔
      (∃ r, keys[i]? = some r ∧ t ∈ r) ∨ (i = keys.length ∧ t ∈ key) := by
  rcases lt_trichotomy i keys.length with h | rfl | h
  · simp [List.getElem?_append_left h, Nat.ne_of_lt h]
  · simp
  · -- past the new range's position both lists have nothing
    have hnone : (keys ++ [key])[i]? = none := List.getElem?_eq_none (by simp; omega)
    have hnone' : keys[i]? = none := List.getElem?_eq_none (Nat.le_of_lt h)
    simp [hnone, hnone', Nat.ne_of_gt h]

/-- What one turn of the loop leaves: the pieces the new range misses, the parts of those it
overlaps, and the untouched parts of the new range with its index alone, apart from each
other. -/
lemma splitStep_apart_mem {keys : List TimeRange} {m : List (TimeRange × List ℕ)}
    {key : TimeRange} (h : SplitOf keys m) (hk : key.Proper) :
    Apart (splitStep m keys.length key) ∧ ∀ x, x ∈ splitStep m keys.length key ↔
      ((x ∈ m ∧ x ∉ overlapping m key) ∨ ∃ y ∈ overlapping m key, x ∈ piecesOf y key keys.length) ∨
        x ∈ ((overlapping m key).foldl (fun u x => u.flatMap (·.difference x.1)) [key]).map
          (·, [keys.length]) := by
  set T := overlapping m key with hTdef
  have hmemT : ∀ x, x ∈ T ↔ x ∈ m ∧ x.1.isOverlapping key := fun x => mem_overlapping h.toApart
  have hTv : ∀ x ∈ T, x.1.Valid := fun x hx => (h.proper x ((hmemT x).mp hx).1).valid
  obtain ⟨ha₁, hmem₁⟩ := applyActions_spec keys.length h.toApart T
    (nodup_overlapping h.toApart) (fun y hy => (hmemT y).mp hy) hk
  obtain ⟨hUp, hUpair, hUpts⟩ := untouched_spec T hTv [key] (by simpa using hk)
    (List.pairwise_singleton _ _)
  set U := T.foldl (fun u x => u.flatMap (·.difference x.1)) [key] with hUdef
  set m₁ := (T.flatMap fun y => splitRangeBy y.1 y.2 key keys.length).foldl Action.apply m
  -- the untouched parts hold no point of a piece that is left or of a part
  have hfree : ∀ p ∈ U.map (·, [keys.length]), Free m₁ p.1 := by
    intro p hp x hx t htp htx
    obtain ⟨r, hr, rfl⟩ := List.mem_map.mp hp
    obtain ⟨⟨_, hr', htk⟩, htT⟩ := (hUpts t).mp ⟨r, hr, htp⟩
    rw [List.mem_singleton.mp hr'] at htk
    rcases (hmem₁ x).mp hx with ⟨hxm, hxT⟩ | ⟨y, hy, hxy⟩
    · exact hxT ((hmemT x).mpr ⟨hxm, isOverlapping_of_mem htx htk⟩)
    · exact htT y hy (mem_of_mem_piecesOf (hTv y hy) hk.valid hxy htx)
  have hpairU : (U.map (·, [keys.length])).Pairwise fun p q => ∀ t ∈ p.1, t ∉ q.1 := by
    rw [List.pairwise_map]
    exact hUpair.imp fun hab t ht => not_mem_of_end_le hab ht
  obtain ⟨ha', hmem'⟩ := ha₁.foldl_insert
    (fun p hp => by obtain ⟨r, hr, rfl⟩ := List.mem_map.mp hp; exact hUp r hr) hpairU hfree
  have hstep : splitStep m keys.length key =
      (U.map (·, [keys.length])).foldl (fun l p => SortedMap.insert compare p.1 p.2 l) m₁ := by
    simp only [splitStep, foldl_acc, List.nil_append, List.foldl_map, hTdef, hUdef]
    rfl
  rw [hstep]
  exact ⟨ha', fun x => by rw [hmem', hmem₁]⟩

/-- One turn of the loop keeps the map a split of the ranges read so far. -/
theorem splitStep_spec {keys : List TimeRange} {m : List (TimeRange × List ℕ)} {key : TimeRange}
    (h : SplitOf keys m) (hk : key.Proper) :
    SplitOf (keys ++ [key]) (splitStep m keys.length key) := by
  set T := overlapping m key with hTdef
  have hmemT : ∀ x, x ∈ T ↔ x ∈ m ∧ x.1.isOverlapping key := fun x => mem_overlapping h.toApart
  have hTv : ∀ x ∈ T, x.1.Valid := fun x hx => (h.proper x ((hmemT x).mp hx).1).valid
  obtain ⟨-, -, hUpts⟩ := untouched_spec T hTv [key] (by simpa using hk)
    (List.pairwise_singleton _ _)
  set U := T.foldl (fun u x => u.flatMap (·.difference x.1)) [key] with hUdef
  have hUpts' : ∀ t, (∃ r ∈ U, t ∈ r) ↔ t ∈ key ∧ ∀ x ∈ T, t ∉ x.1 := fun t => by
    rw [hUpts]
    simp
  obtain ⟨ha', hmem'⟩ := splitStep_apart_mem h hk
  refine ⟨ha', fun x hx t ht i => ?_, fun r hr t ht => ?_⟩
  · rw [exists_getElem?_append_singleton]
    rcases (hmem' x).mp hx with (⟨hxm, hxT⟩ | ⟨y, hy, hxy⟩) | hx
    · -- a piece that does not overlap `key`: its points are outside it
      have htk : t ∉ key := fun htk => hxT ((hmemT x).mpr ⟨hxm, isOverlapping_of_mem ht htk⟩)
      rw [h.parts x hxm t ht i]
      simp [htk]
    · -- a part of an overlapping piece `y`: the indices of `y`, and the new one inside `key`
      have hty := mem_of_mem_piecesOf (hTv y hy) hk.valid hxy ht
      have hyp := h.parts y ((hmemT y).mp hy).1 t hty i
      obtain ⟨hin, hout⟩ := parts_of_mem_piecesOf (hTv y hy) hk.valid hxy ht
      by_cases htk : t ∈ key
      · rw [hin htk, List.mem_append, hyp, List.mem_singleton]
        simp [htk]
      · rw [hout htk, hyp]
        simp [htk]
    · -- an untouched part: no earlier range holds its points
      obtain ⟨r, hr, rfl⟩ := List.mem_map.mp hx
      obtain ⟨htk, htT⟩ := (hUpts' t).mp ⟨r, hr, ht⟩
      have hold : ¬∃ r', keys[i]? = some r' ∧ t ∈ r' := by
        rintro ⟨r', hr', htr'⟩
        obtain ⟨z, hz, htz⟩ := h.covers r' (List.mem_of_getElem? hr') t htr'
        exact htT z ((hmemT z).mpr ⟨hz, isOverlapping_of_mem htz htk⟩) htz
      simp [hold, htk]
  · -- a point of a range is in a piece that is left, in a part, or in an untouched part
    have hpart : ∀ z ∈ T, t ∈ z.1 → ∃ x ∈ splitStep m keys.length key, t ∈ x.1 := by
      intro z hzT htz
      obtain ⟨p, hp, htp⟩ := exists_mem_piecesOf keys.length (hTv z hzT) hk.valid htz
      exact ⟨p, (hmem' p).mpr (.inl (.inr ⟨z, hzT, hp⟩)), htp⟩
    rcases List.mem_append.mp hr with hr | hr
    · obtain ⟨z, hz, htz⟩ := h.covers r hr t ht
      by_cases hzT : z ∈ T
      · exact hpart z hzT htz
      · exact ⟨z, (hmem' z).mpr (.inl (.inl ⟨hz, hzT⟩)), htz⟩
    · rw [List.mem_singleton] at hr
      subst hr
      by_cases hT' : ∃ z ∈ T, t ∈ z.1
      · obtain ⟨z, hzT, htz⟩ := hT'
        exact hpart z hzT htz
      · obtain ⟨u, hu, htu⟩ := (hUpts' t).mpr ⟨ht, fun z hz htz => hT' ⟨z, hz, htz⟩⟩
        exact ⟨(u, [keys.length]), (hmem' _).mpr (.inr (List.mem_map_of_mem hu)), htu⟩

/-- `split_overlapping_ranges` on ranges that each hold a point cuts them into pieces that
share no point, each with the positions of the ranges over it. -/
theorem splitOverlappingRanges_spec (ranges : List PartitionRange)
    (h : ∀ r ∈ ranges, r.start < r.end) :
    SplitOf (ranges.map PartitionRange.timeRange) (splitOverlappingRanges ranges) := by
  induction ranges using List.reverseRecOn with
  | nil => exact ⟨Apart.nil, by simp [splitOverlappingRanges], by simp⟩
  | append_singleton ranges r ih =>
    have hkey := PartitionRange.proper_timeRange (h r (List.mem_append_right _ List.mem_cons_self))
    rw [splitOverlappingRanges_append_singleton, List.map_append, List.map_singleton]
    have := splitStep_spec (ih fun r' hr' => h r' (List.mem_append_left _ hr')) hkey
    rwa [List.length_map] at this

/-! ## The index lists of the pieces -/

/-- The index lists of a map of the first `n` ranges: never empty, no index twice, each below
`n`. -/
def PartsWithin (n : ℕ) (m : List (TimeRange × List ℕ)) : Prop :=
  ∀ x ∈ m, x.2 ≠ [] ∧ x.2.Nodup ∧ ∀ i ∈ x.2, i < n

lemma parts_of_mem_piecesOf' {y x : TimeRange × List ℕ} {key : TimeRange} {idx : ℕ}
    (hx : x ∈ piecesOf y key idx) : x.2 = y.2 ++ [idx] ∨ x.2 = y.2 := by
  unfold piecesOf at hx
  rcases List.mem_append.mp hx with hx | hx
  · cases hi : y.1.intersection key with
    | none => simp [hi] at hx
    | some i =>
      simp only [hi, Option.map_some, Option.toList_some, List.mem_singleton] at hx
      exact .inl (by rw [hx])
  · obtain ⟨d, -, rfl⟩ := List.mem_map.mp hx
    exact .inr rfl

/-- One turn of the loop adds its index once, to the pieces of the new range only. -/
lemma splitStep_partsWithin {keys : List TimeRange} {m : List (TimeRange × List ℕ)}
    {key : TimeRange} (h : SplitOf keys m) (hp : PartsWithin keys.length m) (hk : key.Proper) :
    PartsWithin (keys.length + 1) (splitStep m keys.length key) := by
  intro x hx
  rcases ((splitStep_apart_mem h hk).2 x).mp hx with (⟨hxm, -⟩ | ⟨y, hy, hxy⟩) | hx
  · obtain ⟨hne, hnd, hlt⟩ := hp x hxm
    exact ⟨hne, hnd, fun i hi => Nat.lt_succ_of_lt (hlt i hi)⟩
  · obtain ⟨hne, hnd, hlt⟩ := hp y ((mem_overlapping h.toApart).mp hy).1
    rcases parts_of_mem_piecesOf' hxy with he | he <;> rw [he]
    · -- the intersection gains the new index, which no piece had
      refine ⟨by simp, List.nodup_append.mpr ⟨hnd, List.pairwise_singleton _ _, ?_⟩, fun i hi => ?_⟩
      · intro a ha b hb hab
        rw [List.mem_singleton] at hb
        have := hlt a ha
        omega
      · rcases List.mem_append.mp hi with hi | hi
        · exact Nat.lt_succ_of_lt (hlt i hi)
        · rw [List.mem_singleton.mp hi]
          exact Nat.lt_succ_self _
    · exact ⟨hne, hnd, fun i hi => Nat.lt_succ_of_lt (hlt i hi)⟩
  · obtain ⟨r, -, rfl⟩ := List.mem_map.mp hx
    simp

lemma splitOverlappingRanges_partsWithin (ranges : List PartitionRange)
    (h : ∀ r ∈ ranges, r.start < r.end) :
    PartsWithin ranges.length (splitOverlappingRanges ranges) := by
  induction ranges using List.reverseRecOn with
  | nil => simp [PartsWithin, splitOverlappingRanges]
  | append_singleton ranges r ih =>
    have h' : ∀ r' ∈ ranges, r'.start < r'.end := fun r' hr' => h r' (List.mem_append_left _ hr')
    have hkey := PartitionRange.proper_timeRange (h r (List.mem_append_right _ List.mem_cons_self))
    have hs := splitOverlappingRanges_spec ranges h'
    have hstep := splitStep_partsWithin hs (by simpa using ih h') hkey
    rw [List.length_map] at hstep
    rwa [splitOverlappingRanges_append_singleton, List.length_append, List.length_singleton]

/-- `split_overlapping_ranges` on ranges that each hold a point: its keys are non-empty and do
not overlap, they cover the points of the ranges and no other, and the indices of a key are the
ranges that contain it, once each; every other range misses it. -/
theorem splitOverlappingRanges_pieces (ranges : List PartitionRange)
    (h : ∀ r ∈ ranges, r.start < r.end) :
    (splitOverlappingRanges ranges).Pairwise (fun x y => x.1.isOverlapping y.1 = false) ∧
      (∀ x ∈ splitOverlappingRanges ranges, x.1.start < x.1.end) ∧
      (∀ t, (∃ x ∈ splitOverlappingRanges ranges, t ∈ x.1) ↔
        ∃ r ∈ ranges, r.start ≤ t ∧ t < r.end) ∧
      (∀ x ∈ splitOverlappingRanges ranges, ∀ i r, ranges[i]? = some r →
        (i ∈ x.2 ↔ x.1.isSubset r.timeRange = true) ∧
        (i ∉ x.2 → x.1.isOverlapping r.timeRange = false)) ∧
      (∀ x ∈ splitOverlappingRanges ranges, x.2.Nodup ∧ ∀ i ∈ x.2, i < ranges.length) := by
  have hs := splitOverlappingRanges_spec ranges h
  have hp := splitOverlappingRanges_partsWithin ranges h
  have hmemr : ∀ r ∈ ranges, ∀ t, t ∈ r.timeRange ↔ r.start ≤ t ∧ t < r.end := by
    intro r hr t
    rw [PartitionRange.timeRange_of_lt (h r hr), mem_def]
  -- at every point of a key, its indices are the ranges over that point
  have hparts : ∀ x ∈ splitOverlappingRanges ranges, ∀ t ∈ x.1, ∀ i r, ranges[i]? = some r →
      (i ∈ x.2 ↔ t ∈ r.timeRange) := by
    intro x hx t ht i r hi
    rw [hs.parts x hx t ht i, List.getElem?_map, hi]
    simp
  refine ⟨?_, hs.proper, fun t => ⟨?_, ?_⟩, fun x hx i r hi => ⟨?_, ?_⟩,
    fun x hx => ⟨(hp x hx).2.1, (hp x hx).2.2⟩⟩
  · refine hs.toApart.pairwise.imp_of_mem fun {x y} hx hy hxy => ?_
    have hyp := hs.proper y hy
    rw [Bool.eq_false_iff, ne_eq, isOverlapping_iff]
    unfold Proper at hyp
    omega
  · rintro ⟨x, hx, htx⟩
    obtain ⟨i, hi⟩ := List.exists_mem_of_ne_nil _ (hp x hx).1
    obtain ⟨r', hr', htr'⟩ := (hs.parts x hx t htx i).mp hi
    rw [List.getElem?_map, Option.map_eq_some_iff] at hr'
    obtain ⟨r, hr, rfl⟩ := hr'
    have hrm := List.mem_of_getElem? hr
    exact ⟨r, hrm, (hmemr r hrm t).mp htr'⟩
  · rintro ⟨r, hr, htr⟩
    exact hs.covers r.timeRange (List.mem_map_of_mem hr) t ((hmemr r hr t).mpr htr)
  · have hxp := hs.proper x hx
    constructor
    · intro hix
      exact isSubset_iff.mpr (bounds_of_forall_mem hxp fun t ht =>
        (hparts x hx t ht i r hi).mp hix)
    · intro hsub
      exact (hparts x hx _ (start_mem_of_proper hxp) i r hi).mpr
        (mem_of_isSubset hsub (start_mem_of_proper hxp))
  · -- a range over one point of the key lists the key
    intro hix
    rw [Bool.eq_false_iff]
    intro hov
    have hrp : r.timeRange.start < r.timeRange.end :=
      PartitionRange.proper_timeRange (h r (List.mem_of_getElem? hi))
    have hxp := hs.proper x hx
    rw [isOverlapping_iff] at hov
    unfold Proper at hxp
    -- the later of the two starts is in both
    have hlt : max x.1.start r.timeRange.start < min x.1.end r.timeRange.end :=
      max_lt (lt_min hxp hov.1) (lt_min hov.2 hrp)
    have ht : max x.1.start r.timeRange.start ∈ x.1 :=
      ⟨le_max_left _ _, lt_of_lt_of_le hlt (min_le_left _ _)⟩
    have htr : max x.1.start r.timeRange.start ∈ r.timeRange :=
      ⟨le_max_right _ _, lt_of_lt_of_le hlt (min_le_right _ _)⟩
    exact hix ((hparts x hx _ ht i r hi).mpr htr)

/-- Two ranges that overlap: `[0, 10)` and `[5, 15)`. -/
theorem splitOverlappingRanges_pieces_overlapping :
    (∀ r ∈ [PartitionRange.mk 0 10, PartitionRange.mk 5 15], r.start < r.end) ∧
      (splitOverlappingRanges [PartitionRange.mk 0 10, PartitionRange.mk 5 15]).Pairwise
        (fun x y => x.1.isOverlapping y.1 = false) ∧
      (∀ x ∈ splitOverlappingRanges [PartitionRange.mk 0 10, PartitionRange.mk 5 15],
        x.1.start < x.1.end) ∧
      (∀ t, (∃ x ∈ splitOverlappingRanges [PartitionRange.mk 0 10, PartitionRange.mk 5 15],
          t ∈ x.1) ↔
        ∃ r ∈ [PartitionRange.mk 0 10, PartitionRange.mk 5 15], r.start ≤ t ∧ t < r.end) ∧
      (∀ x ∈ splitOverlappingRanges [PartitionRange.mk 0 10, PartitionRange.mk 5 15], ∀ i r,
        [PartitionRange.mk 0 10, PartitionRange.mk 5 15][i]? = some r →
          (i ∈ x.2 ↔ x.1.isSubset r.timeRange = true) ∧
          (i ∉ x.2 → x.1.isOverlapping r.timeRange = false)) ∧
      (∀ x ∈ splitOverlappingRanges [PartitionRange.mk 0 10, PartitionRange.mk 5 15],
        x.2.Nodup ∧ ∀ i ∈ x.2, i < [PartitionRange.mk 0 10, PartitionRange.mk 5 15].length) :=
  ⟨by decide, splitOverlappingRanges_pieces _ (by decide)⟩

end WindowSort

end Greptime
