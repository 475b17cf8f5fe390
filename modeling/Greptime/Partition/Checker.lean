import Greptime.Partition.Collider

/-!
# The partition checker (`partition::checker`)

`MultiDimPartitionRule::try_new` with `check_exprs` runs `PartitionChecker::check` on the
rule's expressions before it gives the rule out.  The checker takes the collider of the
expressions, refuses two atomic expressions with the same nucleons, and then evaluates every
atomic expression on a matrix of checkpoints: for each column, a place below its first
normalized value, one on each value and one just above each (`CHECK_STEP`).  A checkpoint where
no atomic expression holds is not covered, one where two hold is overlapped.

The checker never sees a row, only the places of the matrix; `tryNew_partitions_rows` is what
it promises about rows.  A row falls at one place of each column (`Collider.pointOf`), and that
point is a checkpoint of the matrix; at the point, an expression holds exactly where one of its
atomic expressions does (`Collider.any_holdsAt_collideExpr`).  So on a rule the checker accepts,
every row satisfies exactly one expression, and `find_region` returns one of the rule's regions.

The promise needs at least one expression: the checker accepts the empty rule, whose matrix is
empty, and that rule sends every row to the default region (`tryNew_accepts_empty_rule`).
-/

namespace Greptime

/-- `PartitionChecker`: a rule and the collider of its expressions. -/
structure PartitionChecker (α : Type) where
  rule : MultiDimPartitionRule α
  collider : Collider α

namespace PartitionChecker

variable {α : Type} [LinearOrder α]

/-- `PartitionChecker::try_new`. -/
def tryNew (rule : MultiDimPartitionRule α) : Except (CheckError α) (PartitionChecker α) := do
  let collider ← Collider.new rule.exprs
  pure ⟨rule, collider⟩

/-- The atomic expression that a `BTreeMap` keyed by nucleons keeps for `nucleons`: the last
one inserted. -/
def lastWithNucleons (atomicExprs : List AtomicExpr) (nucleons : List NucleonExpr) :
    Option AtomicExpr :=
  atomicExprs.reverse.find? (·.nucleons == nucleons)

/-- The uniqueness check of `PartitionChecker::run`: where two atomic expressions have the same
nucleons, the first one that the map did not keep names its source expression. -/
def checkDuplicates (checker : PartitionChecker α) : Except (CheckError α) Unit :=
  let atomicExprs := checker.collider.atomicExprs
  if (atomicExprs.map (·.nucleons)).dedup.length ≠ atomicExprs.length then
    match atomicExprs.find? (fun expr => (lastWithNucleons atomicExprs expr.nucleons).map
        (·.sourceExprIndex) != some expr.sourceExprIndex) with
    | some expr => .error (.duplicateExpr checker.rule.exprs[expr.sourceExprIndex]?)
    | none => .error (.duplicateExpr none)
  else pure ()

/-- The cornerstones of a column: below its first value, then on each value and just above it. -/
def cornerstones (values : List (WithBot α × ℚ)) : List ℚ :=
  match values with
  | [] => []
  | first :: _ =>
    (first.2 - Collider.checkStep) :: values.flatMap fun value =>
      [value.2, value.2 + Collider.checkStep]

/-- `matrix_foundation`: the cornerstones of every column with values. -/
def matrixFoundation (normalizedValues : NormalizedValues α) : List (ℕ × List ℚ) :=
  normalizedValues.filterMap fun (column, values) =>
    if values.isEmpty then none else some (column, cornerstones values)

/-- The count at one checkpoint: exactly one atomic expression holds there. -/
def checkPoint (atomicExprs : List AtomicExpr) (checkpoint : List (ℕ × ℚ)) :
    Except (CheckError α) Unit :=
  let trueCount := atomicExprs.countP (·.holdsAt checkpoint)
  if trueCount = 0 then .error (.checkpointNotCovered checkpoint)
  else if trueCount > 1 then .error (.checkpointOverlapped checkpoint)
  else pure ()

/-- `PartitionChecker::run`.  `MatrixGenerator` numbers the checkpoints with the first column
varying slowest and hands them out in batches; the model goes through them in that order,
one at a time. -/
def run (checker : PartitionChecker α) : Except (CheckError α) Unit := do
  checkDuplicates checker
  let foundation := matrixFoundation checker.collider.normalizedValues
  if foundation.isEmpty then pure ()
  else (Grid.grid foundation).forM (checkPoint checker.collider.atomicExprs)

/-- `PartitionChecker::check`. -/
def check (checker : PartitionChecker α) : Except (CheckError α) Unit :=
  checker.run

end PartitionChecker

/-- `MultiDimPartitionRule::try_new`: with `checkExprs`, the rule is checked before it is given
out. -/
def MultiDimPartitionRule.tryNew {α : Type} [LinearOrder α] (columns : ℕ) (regions : List ℕ)
    (exprs : List (PartitionExpr α)) (checkExprs : Bool) :
    Except (CheckError α) (MultiDimPartitionRule α) := do
  let rule : MultiDimPartitionRule α := ⟨columns, regions, exprs⟩
  if checkExprs then
    let checker ← PartitionChecker.tryNew rule
    checker.check
  pure rule

namespace PartitionChecker

variable {α : Type} [LinearOrder α]

/-! ## What an accepted check says -/

omit [LinearOrder α] in
lemma checkPoint_eq_ok {atomicExprs : List AtomicExpr} {checkpoint : List (ℕ × ℚ)} :
    checkPoint (α := α) atomicExprs checkpoint = .ok () ↔
      atomicExprs.countP (·.holdsAt checkpoint) = 1 := by
  unfold checkPoint
  dsimp only
  split_ifs <;> simp [pure, Except.pure] <;> omega

omit [LinearOrder α] in
/-- A run that succeeds found exactly one atomic expression at every checkpoint, unless its
matrix is empty. -/
lemma run_eq_ok {checker : PartitionChecker α} (h : checker.run = .ok ()) :
    matrixFoundation checker.collider.normalizedValues = [] ∨
      ∀ checkpoint ∈ Grid.grid (matrixFoundation checker.collider.normalizedValues),
        checker.collider.atomicExprs.countP (·.holdsAt checkpoint) = 1 := by
  obtain ⟨⟨⟩, -, h⟩ := Except.bind_eq_ok.mp h
  dsimp only at h
  split at h
  · exact .inl (List.isEmpty_iff.mp ‹_›)
  · exact .inr fun checkpoint hcp => checkPoint_eq_ok.mp (Except.forM_eq_ok.mp h checkpoint hcp)

/-- A checked rule is the rule asked for, and the checker of its collider ran through. -/
lemma tryNew_eq_ok {columns : ℕ} {regions : List ℕ} {exprs : List (PartitionExpr α)}
    {rule : MultiDimPartitionRule α}
    (h : MultiDimPartitionRule.tryNew columns regions exprs true = .ok rule) :
    rule = ⟨columns, regions, exprs⟩ ∧ ∃ collider, Collider.new exprs = .ok collider ∧
      (PartitionChecker.mk rule collider).run = .ok () := by
  simp only [MultiDimPartitionRule.tryNew, if_true] at h
  obtain ⟨checker, hnew, h⟩ := Except.bind_eq_ok.mp h
  obtain ⟨⟨⟩, hrun, h⟩ := Except.bind_eq_ok.mp h
  cases h
  obtain ⟨collider, hcollider, h⟩ := Except.bind_eq_ok.mp hnew
  cases h
  exact ⟨rfl, collider, hcollider, hrun⟩

/-! ## Rows -/

lemma rank_mem_cornerstones {cs : List (WithBot α)} (hcs : cs ≠ []) (x : WithBot α) :
    Grid.rank cs x ∈ cornerstones (Collider.normalizeFrom 0 cs) := by
  obtain ⟨c, cs', rfl⟩ := List.exists_cons_of_ne_nil hcs
  show _ ∈ (0 - Collider.checkStep) :: (Collider.normalizeFrom 0 (c :: cs')).flatMap
    fun value => [value.2, value.2 + Collider.checkStep]
  rcases Grid.mem_places.mp (Grid.rank_mem_places (c :: cs') x) with h | ⟨i, hi, h | h⟩
  · rw [h, Collider.checkStep]
    exact List.mem_cons.mpr (.inl (by norm_num))
  all_goals
    have hv : ((c :: cs')[i], (0 : ℚ) + i) ∈ Collider.normalizeFrom 0 (c :: cs') :=
      Collider.mem_normalizeFrom.mpr ⟨i, hi, rfl, rfl⟩
    refine List.mem_cons_of_mem _ (List.mem_flatMap.mpr ⟨_, hv, ?_⟩)
    simp [h, Collider.checkStep]

lemma matrixFoundation_of_wellFormed {normalizedValues : NormalizedValues α}
    (hnv : Collider.WellFormed normalizedValues) :
    matrixFoundation normalizedValues =
      normalizedValues.map fun entry => (entry.1, cornerstones entry.2) := by
  rw [matrixFoundation, List.filterMap_congr (g := fun entry => some (entry.1, cornerstones entry.2))]
  · simp
  rintro ⟨column, values⟩ hentry
  obtain ⟨cs, hcs, -, rfl⟩ := hnv.numbered column values hentry
  obtain ⟨c, cs', rfl⟩ := List.exists_cons_of_ne_nil hcs
  rfl

/-- The point of every row is a checkpoint. -/
lemma pointOf_mem_grid {normalizedValues : NormalizedValues α}
    (hnv : Collider.WellFormed normalizedValues) (values : List (Option α)) :
    Collider.pointOf normalizedValues values ∈ Grid.grid (matrixFoundation normalizedValues) := by
  rw [matrixFoundation_of_wellFormed hnv, Collider.pointOf]
  refine Grid.map_mem_grid Prod.fst (fun entry => cornerstones entry.2) _ fun entry hentry => ?_
  obtain ⟨cs, hcs, -, hvs⟩ := hnv.numbered entry.1 entry.2 hentry
  rw [hvs, Collider.map_fst_normalizeFrom]
  exact rank_mem_cornerstones hcs _

/-- Where exactly one atomic expression of the collider holds at a row's point, exactly one
expression holds on the row. -/
lemma countP_evaluateExpr_eq_one {exprs : List (PartitionExpr α)} {collider : Collider α}
    (hnew : Collider.new exprs = .ok collider) (values : List (Option α))
    (h : collider.atomicExprs.countP
      (·.holdsAt (Collider.pointOf collider.normalizedValues values)) = 1) :
    exprs.countP (evaluateExpr values) = 1 := by
  obtain ⟨hnv, groups, hgroups, hatoms⟩ := Collider.new_eq_ok hnew
  have hsame : List.Forall₂ (fun e atoms => evaluateExpr values e =
      atoms.any (·.holdsAt (Collider.pointOf (Collider.normalize exprs) values))) exprs groups :=
    hgroups.imp fun _ _ ⟨index, h⟩ =>
      (Collider.any_holdsAt_collideExpr (Collider.wellFormed_normalize exprs) values index h).symm
  rw [Grid.countP_eq_of_forall₂ hsame]
  apply Grid.countP_any_eq_one
  rw [hatoms, hnv, List.countP_map] at h
  simpa only [Function.comp_def, Collider.holdsAt_sortNucleons] using h

/-- Where some expression holds on a row, `find_region` gives the row one of the rule's
regions. -/
lemma findRegion_mem_regions {rule : MultiDimPartitionRule α} {values : List (Option α)}
    (hlen : rule.exprs.length ≤ rule.regions.length) (h : rule.exprs.any (evaluateExpr values)) :
    rule.findRegion values ∈ rule.regions := by
  obtain ⟨e, he, hev⟩ := List.any_eq_true.mp h
  obtain ⟨i, hi, rfl⟩ := List.getElem_of_mem he
  have hi' : i < rule.regions.length := by omega
  have hzip : (rule.exprs[i], rule.regions[i]) ∈ rule.exprs.zip rule.regions :=
    List.mem_iff_getElem.mpr ⟨i, by simp [List.length_zip]; omega, List.getElem_zip⟩
  unfold MultiDimPartitionRule.findRegion
  split
  · rename_i hfind
    exact (List.of_mem_zip (List.mem_of_find?_eq_some hfind)).2
  · rename_i hfind
    exact absurd hev (by simpa using List.find?_eq_none.mp hfind _ hzip)

end PartitionChecker

section Soundness

variable {α : Type} [LinearOrder α]

open PartitionChecker

/-- On a rule with at least one expression that `try_new` has checked, every row satisfies
exactly one expression, and `find_region` sends it to one of the rule's regions. -/
theorem tryNew_partitions_rows {columns : ℕ} {regions : List ℕ} {exprs : List (PartitionExpr α)}
    {rule : MultiDimPartitionRule α} (hexprs : exprs ≠ [])
    (h : MultiDimPartitionRule.tryNew columns regions exprs true = .ok rule)
    (values : List (Option α)) :
    rule.exprs.countP (evaluateExpr values) = 1 ∧
      (rule.exprs.length ≤ rule.regions.length → rule.findRegion values ∈ rule.regions) := by
  obtain ⟨rfl, collider, hnew, hrun⟩ := tryNew_eq_ok h
  have hnv := (Collider.new_eq_ok hnew).1
  have hwf := Collider.wellFormed_normalize exprs
  have hpoint : collider.atomicExprs.countP
      (·.holdsAt (Collider.pointOf collider.normalizedValues values)) = 1 := by
    rcases run_eq_ok hrun with hempty | hall
    · rw [hnv, matrixFoundation_of_wellFormed hwf, List.map_eq_nil_iff] at hempty
      exact absurd hempty (Collider.normalize_ne_nil hexprs)
    · refine hall _ ?_
      rw [hnv]
      exact pointOf_mem_grid hwf values
  have hcount := countP_evaluateExpr_eq_one hnew values hpoint
  refine ⟨hcount, fun hlen => findRegion_mem_regions hlen ?_⟩
  exact List.any_eq_true.mpr (List.countP_pos_iff.mp (by simp only at hcount ⊢; omega))

/-- The rule `a < 10 → 1, a ≥ 10 → 2` passes the check. -/
theorem tryNew_partitions_rows_twoRegions :
    [PartitionExpr.colVal 0 .lt (some 10), .colVal 0 .gtEq (some 10)] ≠ [] ∧
      MultiDimPartitionRule.tryNew 1 [1, 2]
        [PartitionExpr.colVal 0 .lt (some 10), .colVal 0 .gtEq (some 10)] true =
        .ok ⟨1, [1, 2], [.colVal 0 .lt (some (10 : ℕ)), .colVal 0 .gtEq (some 10)]⟩ ∧
      ∀ values : List (Option ℕ),
        [PartitionExpr.colVal 0 .lt (some (10 : ℕ)), .colVal 0 .gtEq (some 10)].countP
            (evaluateExpr values) = 1 ∧
          ((⟨1, [1, 2], [.colVal 0 .lt (some 10), .colVal 0 .gtEq (some 10)]⟩ :
            MultiDimPartitionRule ℕ).findRegion values ∈ [1, 2]) := by
  have hne : [PartitionExpr.colVal 0 .lt (some (10 : ℕ)), .colVal 0 .gtEq (some 10)] ≠ [] := by
    simp
  have hcheck : MultiDimPartitionRule.tryNew 1 [1, 2]
      [PartitionExpr.colVal 0 .lt (some (10 : ℕ)), .colVal 0 .gtEq (some 10)] true =
      .ok ⟨1, [1, 2], [.colVal 0 .lt (some 10), .colVal 0 .gtEq (some 10)]⟩ := by
    decide +kernel
  refine ⟨hne, hcheck, fun values => ?_⟩
  obtain ⟨hcount, hregion⟩ := tryNew_partitions_rows hne hcheck values
  exact ⟨hcount, hregion (by decide)⟩

/-- The empty rule passes the check, and sends every row to the default region, which is not
one of its regions. -/
theorem tryNew_accepts_empty_rule :
    MultiDimPartitionRule.tryNew 1 [] ([] : List (PartitionExpr ℕ)) true = .ok ⟨1, [], []⟩ ∧
      (⟨1, [], []⟩ : MultiDimPartitionRule ℕ).findRegion [some 0] = defaultRegion ∧
      ([] : List (PartitionExpr ℕ)).countP (evaluateExpr [some 0]) = 0 :=
  ⟨rfl, rfl, rfl⟩

end Soundness

end Greptime
