import Greptime.Index.Bitmap

/-!
# Applying predicates to an inverted index (`PredicatesIndexApplier::apply`)

A `PredicatesIndexApplier` holds an FST applier for each index it reads, by index name.
`apply` looks each index up in the metadata of the reader; an index that is missing makes the
whole answer empty (`ReturnEmpty`), is passed over (`Ignore`), or is an error (`ThrowError`).
Each applier then selects the values of its FST, and `ParallelFstValuesMapper` joins the
bitmaps of the segments of those values into one bitmap for each applier.  The answer is
meant to be the intersection of these bitmaps, or every segment when no index was found.

The intersection is computed by taking the last bitmap and intersecting the others into it in
order, but the loop stops at the first bitmap with no ones and keeps what it has
(`ones_intersectUntilEmpty`).  So the answer is the intersection when no bitmap but the last is
empty (`apply_ignore_ones`).  Otherwise it can hold segments that some index rules out
(`apply_keeps_segments_after_empty`).

The reader's content is abstract: the metadata, the FST stored at each byte range, and the
bitmap stored at each byte range in each encoding.  Its I/O and decoding errors are left out.
A value of an FST names its bitmap by two `u32` halves (`bytemuck::cast::<u64, [u32; 2]>` on a
little-endian target): the low half is the offset from the index's base, the high half the
size.
-/

namespace Greptime

namespace InvertedIndex

/-- `IndexNotFoundStrategy`. -/
inductive IndexNotFoundStrategy
  | returnEmpty
  | ignore
  | throwError
  deriving DecidableEq

/-- `InvertedIndexMeta`: the fields the applier reads. -/
structure InvertedIndexMeta where
  baseOffset : ℕ
  relativeFstOffset : ℕ
  fstSize : ℕ
  /-- `BitmapType::try_from(meta.bitmap_type)`, `none` for a code it does not know. -/
  bitmapType : Option BitmapType

/-- `InvertedIndexMetas`: the metadata of every index, by name, and the row counts. -/
structure InvertedIndexMetas where
  metas : List (String × InvertedIndexMeta)
  totalRowCount : ℕ
  segmentRowCount : ℕ

/-- What a reader of an inverted index holds: its metadata, the FST stored at each byte range
(`fst_vec`) and the bitmap stored at each byte range, read in an encoding (`bitmap_deque`). -/
structure IndexContent (Fst : Type) where
  metadata : InvertedIndexMetas
  fst : ℕ × ℕ → Fst
  bitmap : ℕ × ℕ → BitmapType → Bitmap

/-- `ApplyOutput`. -/
structure ApplyOutput where
  matchedSegmentIds : Bitmap
  totalRowCount : ℕ
  segmentRowCount : ℕ

/-- How `apply` fails: `IndexNotFound`, and the panics of `div_ceil` by zero and of
`pop().unwrap()` on no bitmaps. -/
inductive ApplyError
  | indexNotFound (name : String)
  | divisionByZero
  | popEmpty
  deriving DecidableEq

variable {Fst : Type}

/-- The byte range of the FST of an index. -/
def fstRange (indexMeta : InvertedIndexMeta) : ℕ × ℕ :=
  (indexMeta.baseOffset + indexMeta.relativeFstOffset,
    indexMeta.baseOffset + indexMeta.relativeFstOffset + indexMeta.fstSize)

/-- The byte range of the bitmap a value of an FST names. -/
def valueRange (indexMeta : InvertedIndexMeta) (value : UInt64) : ℕ × ℕ :=
  let relativeOffset := value.toNat % 2 ^ 32
  let size := value.toNat / 2 ^ 32
  (indexMeta.baseOffset + relativeOffset, indexMeta.baseOffset + relativeOffset + size)

/-- The appliers whose index the metadata holds, each with its metadata, in order; `none`
when `ReturnEmpty` meets an index that is missing. -/
def collectAppliers {α : Type} (strategy : IndexNotFoundStrategy)
    (metas : List (String × InvertedIndexMeta)) :
    List (String × α) → Except ApplyError (Option (List (α × InvertedIndexMeta)))
  | [] => .ok (some [])
  | (name, fstApplier) :: rest =>
    match metas.lookup name with
    | none =>
      match strategy with
      | .returnEmpty => .ok none
      | .ignore => collectAppliers strategy metas rest
      | .throwError => .error (.indexNotFound name)
    | some indexMeta =>
      (collectAppliers strategy metas rest).map (Option.map ((fstApplier, indexMeta) :: ·))

/-- The bitmap of the segments of the values one applier selects: the union of the bitmaps
the values name, read in the index's encoding (`BitVec` for a code not known). -/
def groupBitmap (content : IndexContent Fst) (values : List UInt64) (indexMeta : InvertedIndexMeta) :
    Bitmap :=
  values.foldl (fun bitmap value =>
    bitmap.union (content.bitmap (valueRange indexMeta value) (indexMeta.bitmapType.getD .bitVec)))
    Bitmap.newRoaring

/-- `ParallelFstValuesMapper::map_values_vec`: one bitmap for each applier, or a single empty
bit vector when no applier selected a value. -/
def mapValuesVec (content : IndexContent Fst)
    (valueAndMetaVec : List (List UInt64 × InvertedIndexMeta)) : List Bitmap :=
  if (valueAndMetaVec.flatMap Prod.fst).isEmpty then [Bitmap.newBitvec]
  else valueAndMetaVec.map fun group => groupBitmap content group.1 group.2

/-- The loop of `apply`: each bitmap intersected into the accumulated one, in order, up to the
first bitmap with no ones, where the loop breaks. -/
def intersectUntilEmpty : Bitmap → List Bitmap → Bitmap
  | bitmap, [] => bitmap
  | bitmap, bm :: rest =>
    if bm.countOnes = 0 then bitmap else intersectUntilEmpty (bitmap.intersect bm) rest

/-- `PredicatesIndexApplier::bitmap_full_range`: every segment, `total_row_count.div_ceil
(segment_row_count)` of them. -/
def bitmapFullRange (metadata : InvertedIndexMetas) : Except ApplyError Bitmap :=
  if metadata.segmentRowCount = 0 then .error .divisionByZero
  else .ok (Bitmap.fullBitvec
    ((metadata.totalRowCount + metadata.segmentRowCount - 1) / metadata.segmentRowCount))

/-- `PredicatesIndexApplier::apply`. -/
def apply (strategy : IndexNotFoundStrategy) (fstAppliers : List (String × (Fst → List UInt64)))
    (content : IndexContent Fst) : Except ApplyError ApplyOutput := do
  let metadata := content.metadata
  let output : ApplyOutput :=
    ⟨Bitmap.newBitvec, metadata.totalRowCount, metadata.segmentRowCount⟩
  match ← collectAppliers strategy metadata.metas fstAppliers with
  | none => pure output
  | some appliers =>
    if appliers.isEmpty then
      let full ← bitmapFullRange metadata
      pure { output with matchedSegmentIds := full }
    else
      let valueAndMetaVec := appliers.map fun applier =>
        (applier.1 (content.fst (fstRange applier.2)), applier.2)
      let bmVec := mapValuesVec content valueAndMetaVec
      match bmVec.getLast? with
      | none => .error .popEmpty
      | some bitmap =>
        pure { output with matchedSegmentIds := intersectUntilEmpty bitmap bmVec.dropLast }

/-- The appliers whose index the metadata holds, each with its metadata. -/
def foundAppliers {α : Type} (metas : List (String × InvertedIndexMeta))
    (fstAppliers : List (String × α)) : List (α × InvertedIndexMeta) :=
  fstAppliers.filterMap fun applier => (metas.lookup applier.1).map (applier.2, ·)

/-- The bitmap of an applier found: the bitmaps of the values it picks from its FST, joined. -/
def appliedBitmap (content : IndexContent Fst) (applier : (Fst → List UInt64) × InvertedIndexMeta) :
    Bitmap :=
  groupBitmap content (applier.1 (content.fst (fstRange applier.2))) applier.2

/-- The segments an applier selects. -/
def selectedSegments (content : IndexContent Fst) (applier : (Fst → List UInt64) × InvertedIndexMeta) :
    Finset ℕ :=
  (appliedBitmap content applier).ones

/-! ## The steps of `apply` -/

/-- With `Ignore`, the appliers kept are those whose index is found. -/
lemma collectAppliers_ignore {α : Type} (metas : List (String × InvertedIndexMeta))
    (fstAppliers : List (String × α)) :
    collectAppliers .ignore metas fstAppliers = .ok (some (foundAppliers metas fstAppliers)) := by
  induction fstAppliers with
  | nil => rfl
  | cons applier rest ih =>
    obtain ⟨name, fstApplier⟩ := applier
    cases hlookup : metas.lookup name with
    | none => simp [collectAppliers, foundAppliers, hlookup, ih]
    | some indexMeta =>
      simp only [collectAppliers, hlookup, ih, foundAppliers, List.filterMap_cons]
      rfl

/-- A segment of the union of the bitmaps of some values is a segment of one of them. -/
lemma mem_ones_foldl_union (f : UInt64 → Bitmap) (values : List UInt64) (init : Bitmap) (i : ℕ) :
    i ∈ (values.foldl (fun bitmap value => bitmap.union (f value)) init).ones ↔
      i ∈ init.ones ∨ ∃ value ∈ values, i ∈ (f value).ones := by
  induction values generalizing init with
  | nil => simp
  | cons value values ih =>
    rw [List.foldl_cons, ih, Bitmap.ones_union, Finset.mem_union]
    simp only [List.mem_cons, exists_eq_or_imp]
    tauto

lemma mem_ones_groupBitmap (content : IndexContent Fst) (values : List UInt64)
    (indexMeta : InvertedIndexMeta) (i : ℕ) :
    i ∈ (groupBitmap content values indexMeta).ones ↔
      ∃ value ∈ values,
        i ∈ (content.bitmap (valueRange indexMeta value) (indexMeta.bitmapType.getD .bitVec)).ones := by
  rw [groupBitmap, mem_ones_foldl_union]
  simp [Bitmap.ones_newRoaring]

/-- The loop keeps what the bitmaps before the first empty one all hold.  The induction is on
the bitmaps, with the accumulated bitmap generalized. -/
lemma mem_ones_intersectUntilEmpty (bitmap : Bitmap) (bms : List Bitmap) (i : ℕ) :
    i ∈ (intersectUntilEmpty bitmap bms).ones ↔
      i ∈ bitmap.ones ∧ ∀ bm ∈ bms.takeWhile (fun bm => decide (bm.countOnes ≠ 0)), i ∈ bm.ones := by
  induction bms generalizing bitmap with
  | nil => simp [intersectUntilEmpty]
  | cons bm bms ih =>
    by_cases hempty : bm.countOnes = 0
    · simp [intersectUntilEmpty, hempty]
    · rw [intersectUntilEmpty, if_neg hempty, ih, Bitmap.ones_intersect, Finset.mem_inter,
        List.takeWhile_cons_of_pos (by simpa using hempty)]
      simp only [List.mem_cons, forall_eq_or_imp]
      tauto

/-- When no bitmap is empty, the loop intersects them all. -/
lemma mem_ones_intersectUntilEmpty_of_ne (bitmap : Bitmap) (bms : List Bitmap)
    (hne : ∀ bm ∈ bms, bm.ones ≠ ∅) (i : ℕ) :
    i ∈ (intersectUntilEmpty bitmap bms).ones ↔ i ∈ bitmap.ones ∧ ∀ bm ∈ bms, i ∈ bm.ones := by
  have hall : bms.takeWhile (fun bm => decide (bm.countOnes ≠ 0)) = bms := by
    rw [List.takeWhile_eq_self_iff]
    intro bm hbm
    simpa [Bitmap.countOnes_eq_card, Finset.card_eq_zero] using hne bm hbm
  rw [mem_ones_intersectUntilEmpty, hall]

/-! ## What `apply` returns -/

/-- An index of eight rows, one a segment, with the tags `host` and `region`.  The value
`2 ^ 32` names the bitmap at bytes `100 .. 101` of `region`, which holds the segments `1` and
`2`; every other range holds an empty roaring bitmap. -/
def twoTagIndex : IndexContent Unit where
  metadata := ⟨[("host", ⟨0, 0, 0, some .roaring⟩), ("region", ⟨100, 0, 0, some .roaring⟩)], 8, 1⟩
  fst _ := ()
  bitmap range _ := if range = (100, 101) then .roaring {1, 2} else Bitmap.newRoaring

/-- An applier of `host` that selects no value, and one of `region` that selects `2 ^ 32`. -/
def twoTagAppliers : List (String × (Unit → List UInt64)) :=
  [("host", fun _ => []), ("region", fun _ => [4294967296])]

/-- With `Ignore`, when the appliers found select segments, each but the last at least one,
the answer is the segments they all select. -/
theorem apply_ignore_ones (fstAppliers : List (String × (Fst → List UInt64)))
    (content : IndexContent Fst)
    (hfound : foundAppliers content.metadata.metas fstAppliers ≠ [])
    (hne : ∀ applier ∈ (foundAppliers content.metadata.metas fstAppliers).dropLast,
      selectedSegments content applier ≠ ∅) :
    ∃ out, apply .ignore fstAppliers content = .ok out ∧
      ∀ i, i ∈ out.matchedSegmentIds.ones ↔
        ∀ applier ∈ foundAppliers content.metadata.metas fstAppliers,
          i ∈ selectedSegments content applier := by
  set found := foundAppliers content.metadata.metas fstAppliers
  set valueAndMetaVec := found.map fun applier =>
    (applier.1 (content.fst (fstRange applier.2)), applier.2)
  have happly : apply .ignore fstAppliers content =
      match (mapValuesVec content valueAndMetaVec).getLast? with
      | none => .error .popEmpty
      | some bitmap => .ok ⟨intersectUntilEmpty bitmap (mapValuesVec content valueAndMetaVec).dropLast,
          content.metadata.totalRowCount, content.metadata.segmentRowCount⟩ := by
    simp only [apply, collectAppliers_ignore, bind, Except.bind, pure, Except.pure]
    rw [if_neg (by simpa [List.isEmpty_iff] using hfound)]
  by_cases hvalues : (valueAndMetaVec.flatMap Prod.fst).isEmpty
  · -- no applier selects a value: the single empty bit vector is the answer, and no segment
    -- is selected by all
    refine ⟨⟨Bitmap.newBitvec, content.metadata.totalRowCount, content.metadata.segmentRowCount⟩,
      by rw [happly, mapValuesVec, if_pos hvalues]; rfl, fun i => ?_⟩
    obtain ⟨applier, hmem⟩ := List.exists_mem_of_ne_nil found hfound
    have hnothing : selectedSegments content applier = ∅ := by
      have hsel : applier.1 (content.fst (fstRange applier.2)) = [] := by
        simp only [List.isEmpty_iff, List.flatMap_eq_nil_iff, valueAndMetaVec, List.mem_map] at hvalues
        exact hvalues _ ⟨applier, hmem, rfl⟩
      ext j
      simp [selectedSegments, appliedBitmap, mem_ones_groupBitmap, hsel]
    simp only [Bitmap.ones_newBitvec, Finset.notMem_empty, false_iff, not_forall]
    exact ⟨applier, hmem, by rw [hnothing]; exact Finset.notMem_empty i⟩
  · -- one bitmap for each applier: the last is taken, the others intersected into it
    have hbm : mapValuesVec content valueAndMetaVec = found.map (appliedBitmap content) := by
      rw [mapValuesVec, if_neg hvalues, List.map_map]
      rfl
    obtain ⟨init, last, hsplit⟩ : ∃ init last, found = init ++ [last] :=
      ⟨found.dropLast, found.getLast hfound, (List.dropLast_append_getLast hfound).symm⟩
    have hinit : found.dropLast = init := by rw [hsplit, List.dropLast_concat]
    refine ⟨⟨intersectUntilEmpty (appliedBitmap content last) (init.map (appliedBitmap content)),
      content.metadata.totalRowCount, content.metadata.segmentRowCount⟩, ?_, fun i => ?_⟩
    · rw [happly, hbm, hsplit, List.map_append, List.map_singleton, List.getLast?_concat,
        List.dropLast_concat]
    · have hne' : ∀ bm ∈ init.map (appliedBitmap content), bm.ones ≠ ∅ := by
        intro bm hbm'
        obtain ⟨applier, happlier, rfl⟩ := List.mem_map.mp hbm'
        exact hne applier (hinit ▸ happlier)
      rw [mem_ones_intersectUntilEmpty_of_ne _ _ hne', hsplit]
      simp only [List.mem_map, List.mem_append, List.mem_singleton, forall_exists_index, and_imp,
        selectedSegments]
      constructor
      · rintro ⟨hlast, hinit'⟩ applier (happlier | rfl)
        · exact hinit' _ applier happlier rfl
        · exact hlast
      · intro h
        exact ⟨h last (.inr rfl), fun bm applier happlier hbm => hbm ▸ h applier (.inl happlier)⟩

/-- With `region` first, the empty bitmap of `host` comes last, and the answer is what both
select: nothing. -/
theorem apply_ignore_ones_regionFirst :
    foundAppliers twoTagIndex.metadata.metas twoTagAppliers.reverse ≠ [] ∧
      (∀ applier ∈ (foundAppliers twoTagIndex.metadata.metas twoTagAppliers.reverse).dropLast,
        selectedSegments twoTagIndex applier ≠ ∅) ∧
      ∃ out, apply .ignore twoTagAppliers.reverse twoTagIndex = .ok out ∧
        ∀ i, i ∈ out.matchedSegmentIds.ones ↔
          ∀ applier ∈ foundAppliers twoTagIndex.metadata.metas twoTagAppliers.reverse,
            i ∈ selectedSegments twoTagIndex applier :=
  ⟨by simp [foundAppliers, twoTagAppliers, twoTagIndex], by decide,
    apply_ignore_ones _ _ (by simp [foundAppliers, twoTagAppliers, twoTagIndex]) (by decide)⟩

/-- `host` selects no segment and `region` the segments `{1, 2}`, so no segment is selected by
both; but the loop meets the empty bitmap of `host` first and breaks, and the answer is the
segments of `region`. -/
theorem apply_keeps_segments_after_empty :
    (∃ out, apply .ignore twoTagAppliers twoTagIndex = .ok out ∧
      out.matchedSegmentIds.ones = {1, 2}) ∧
    (foundAppliers twoTagIndex.metadata.metas twoTagAppliers).map (selectedSegments twoTagIndex) =
      [∅, {1, 2}] := by
  refine ⟨⟨_, rfl, by decide⟩, by decide⟩

end InvertedIndex

end Greptime
