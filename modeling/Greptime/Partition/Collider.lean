import Greptime.Partition.MultiDim
import Greptime.Foundations.Grid
import Greptime.Foundations.Except
import Mathlib.Order.WithBot

/-!
# The collider of partition expressions (`partition::collider`)

`Collider::new` prepares the expressions of a partition rule for the checker.  Its first walk
collects the constants of each column, sorts them (`Value`'s order, `NULL` first) and numbers
them `0, 1, 2, …`: the normalized values.  Its second walk splits each expression at its `OR`s
into atomic expressions, conjunctions of nucleons, and each nucleon compares a column with the
normalized value of a constant; where the constant is on the left, the comparison is flipped.
The shapes the walk does not know (`OR` under `AND`, `AND` or `OR` between a column and a
value, a comparison between two expressions) are errors.

The nucleons are evaluated on points that give each column a place among its normalized
values (`Grid.rank`).  `any_holdsAt_collideExpr` says that at the point of any row, an
expression holds under `find_region`'s semantics exactly when one of its atomic expressions
holds: the collider loses nothing of an expression, whatever the row.

A value is `Option α`, with `NULL` below every other value, read as `WithBot α`.
-/

namespace Greptime

/-- `GluonOp`: the comparisons, without the conjunctions. -/
inductive GluonOp
  | eq
  | notEq
  | lt
  | ltEq
  | gt
  | gtEq
  deriving DecidableEq, Repr, Ord

namespace GluonOp

/-- The `GluonOp` of a `RestrictedOp`; `AND` and `OR` have none. -/
def ofRestrictedOp : RestrictedOp → Option GluonOp
  | .eq => some .eq
  | .notEq => some .notEq
  | .lt => some .lt
  | .ltEq => some .ltEq
  | .gt => some .gt
  | .gtEq => some .gtEq
  | .and | .or => none

/-- The operation with its sides swapped: `v < c` is `c > v`. -/
def flip : GluonOp → GluonOp
  | .lt => .gt
  | .ltEq => .gtEq
  | .gt => .lt
  | .gtEq => .ltEq
  | op => op

/-- `GluonOp::to_operator` on two `Float64`s, as DataFusion evaluates it. -/
def eval (op : GluonOp) (x v : ℚ) : Bool :=
  match op with
  | .eq => x == v
  | .notEq => x != v
  | .lt => decide (x < v)
  | .ltEq => decide (x ≤ v)
  | .gt => decide (x > v)
  | .gtEq => decide (x ≥ v)

/-- Whether a comparison with outcome `o` satisfies the operation. -/
def ofOrdering : GluonOp → Ordering → Bool
  | .eq, o => o == .eq
  | .notEq, o => o != .eq
  | .lt, o => o == .lt
  | .ltEq, o => o != .gt
  | .gt, o => o == .gt
  | .gtEq, o => o != .lt

variable {β : Type*} [LinearOrder β]

lemma ofOrdering_compare (op : GluonOp) (x v : β) :
    op.ofOrdering (compare x v) =
      match op with
      | .eq => decide (x = v)
      | .notEq => decide (x ≠ v)
      | .lt => decide (x < v)
      | .ltEq => decide (x ≤ v)
      | .gt => decide (x > v)
      | .gtEq => decide (x ≥ v) := by
  rcases lt_trichotomy x v with h | rfl | h
  · have hc : compare x v = .lt := compare_lt_iff_lt.mpr h
    cases op <;> simp [ofOrdering, hc, h, ne_of_lt h, le_of_lt h, not_lt_of_gt h]
  · cases op <;> simp [ofOrdering]
  · have hc : compare x v = .gt := compare_gt_iff_gt.mpr h
    cases op <;> simp [ofOrdering, hc, h, ne_of_gt h, le_of_lt h, not_lt_of_gt h]

lemma eval_eq_ofOrdering (op : GluonOp) (x v : ℚ) : op.eval x v = op.ofOrdering (compare x v) := by
  rw [ofOrdering_compare]
  cases op <;> by_cases h : x = v <;> simp [eval, h]

lemma flip_ofOrdering (op : GluonOp) (o : Ordering) : op.flip.ofOrdering o = op.ofOrdering o.swap := by
  cases op <;> cases o <;> rfl

end GluonOp

/-- `NucleonExpr`: a column against a normalized value. -/
structure NucleonExpr where
  column : ℕ
  op : GluonOp
  value : ℚ
  deriving DecidableEq, Repr, Ord

/-- `AtomicExpr`: nucleons joined by `AND`, and the index of the expression they come from. -/
structure AtomicExpr where
  nucleons : List NucleonExpr
  sourceExprIndex : ℕ
  deriving DecidableEq, Repr

/-- A nucleon at a point of the checker's matrix: its operation between the column's place and
its value (`NucleonExpr::to_physical_expr`, evaluated on the `Float64` columns of the matrix). -/
def NucleonExpr.holdsAt (point : List (ℕ × ℚ)) (nucleon : NucleonExpr) : Bool :=
  match point.lookup nucleon.column with
  | some x => nucleon.op.eval x nucleon.value
  | none => false

/-- An atomic expression at a point: its nucleons joined by `AND`
(`AtomicExpr::to_physical_expr`). -/
def AtomicExpr.holdsAt (point : List (ℕ × ℚ)) (expr : AtomicExpr) : Bool :=
  expr.nucleons.all (·.holdsAt point)

/-- The errors of the collider and the checker (`partition::error::Error`); the placeholder of
a duplicate that the checker cannot trace to an expression is `duplicateExpr none`. -/
inductive CheckError (α : Type)
  | invalidExpr (expr : PartitionExpr α)
  | noExprOperand
  | unexpected (op : RestrictedOp)
  | duplicateExpr (expr : Option (PartitionExpr α))
  | checkpointNotCovered (checkpoint : List (ℕ × ℚ))
  | checkpointOverlapped (checkpoint : List (ℕ × ℚ))
  deriving DecidableEq

/-- The normalized values of each column, the columns in increasing order. -/
abbrev NormalizedValues (α : Type) := List (ℕ × List (WithBot α × ℚ))

namespace Collider

variable {α : Type} [LinearOrder α]

/-- `NORMALIZE_STEP`: the distance between two neighbouring normalized values. -/
def normalizeStep : ℚ := 1

/-- `CHECK_STEP`: the distance from a normalized value to the checkpoints beside it. -/
def checkStep : ℚ := 1 / 2

/-- A value in the order of `Value`, where `NULL` is below every other value: `WithBot α`. -/
def withBot (x : Option α) : WithBot α := x

omit [LinearOrder α] in
@[simp] lemma withBot_inj {x v : Option α} : withBot x = withBot v ↔ x = v := Iff.rfl

/-! ## The first walk: normalized values -/

/-- `collect_column_values_from_expr`: the columns and constants of an expression, left to
right. -/
def collectColumnValues : PartitionExpr α → List (ℕ × Option α)
  | .colVal column _ v => [(column, v)]
  | .valCol v _ column => [(column, v)]
  | .node lhs _ rhs => collectColumnValues lhs ++ collectColumnValues rhs

/-- Number the values from `start` on (`start_value += NORMALIZE_STEP`). -/
def normalizeFrom {β : Type} (start : ℚ) : List β → List (β × ℚ)
  | [] => []
  | value :: values => (value, start) :: normalizeFrom (start + normalizeStep) values

/-- The first walk of `Collider::new`: the constants of each column sorted, without
duplicates, and numbered from `0`. -/
def normalize (exprs : List (PartitionExpr α)) : NormalizedValues α :=
  let pairs := exprs.flatMap collectColumnValues
  (Grid.sortDedup (pairs.map Prod.fst)).map fun column =>
    (column, normalizeFrom 0 (Grid.sortDedup
      (pairs.filterMap fun pair => if pair.1 = column then some (withBot pair.2) else none)))

/-- `normalized_values.get(col)` and then `.get(val)`. -/
def lookupNormalized (normalizedValues : NormalizedValues α) (column : ℕ) (v : Option α) :
    Option ℚ :=
  (normalizedValues.lookup column).bind fun values => values.lookup (withBot v)

/-! ## The second walk: atomic expressions -/

/-- `try_create_nucleon`: a comparison between a column and a value. -/
def tryCreateNucleon (normalizedValues : NormalizedValues α) :
    PartitionExpr α → Except (CheckError α) NucleonExpr
  | e@(.colVal column op v) =>
    match GluonOp.ofRestrictedOp op with
    | none => .error (.unexpected op)
    | some gluonOp =>
      match lookupNormalized normalizedValues column v with
      | some value => .ok ⟨column, gluonOp, value⟩
      | none => .error (.invalidExpr e)
  | e@(.valCol v op column) =>
    match GluonOp.ofRestrictedOp op with
    | none => .error (.unexpected op)
    | some gluonOp =>
      match lookupNormalized normalizedValues column v with
      | some value => .ok ⟨column, gluonOp.flip, value⟩
      | none => .error (.invalidExpr e)
  | e@(.node _ op _) =>
    match GluonOp.ofRestrictedOp op with
    | none => .error (.unexpected op)
    | some _ => .error (.invalidExpr e)

/-- `collect_nucleons_from_expr`: the nucleons of a conjunction.  Only expressions are joined by
`AND`. -/
def collectNucleonsFromExpr (normalizedValues : NormalizedValues α) :
    PartitionExpr α → Except (CheckError α) (List NucleonExpr)
  | .node lhs .and rhs => do
    let l ← collectNucleonsFromExpr normalizedValues lhs
    let r ← collectNucleonsFromExpr normalizedValues rhs
    pure (l ++ r)
  | .colVal _ .and _ | .valCol _ .and _ => .error .noExprOperand
  | e => (tryCreateNucleon normalizedValues e).map ([·])

/-- `collide_expr`: the atomic expressions of an expression, split at every `OR`. -/
def collideExpr (normalizedValues : NormalizedValues α) (index : ℕ) :
    PartitionExpr α → Except (CheckError α) (List AtomicExpr)
  | .node lhs .or rhs => do
    let l ← collideExpr normalizedValues index lhs
    let r ← collideExpr normalizedValues index rhs
    pure (l ++ r)
  | e@(.colVal _ .or _) | e@(.valCol _ .or _) => .error (.invalidExpr e)
  | e => do
    let nucleons ← collectNucleonsFromExpr normalizedValues e
    pure [⟨nucleons, index⟩]

/-- `sort_unstable` of the nucleons of an atomic expression, by their derived order. -/
def sortNucleons (nucleons : List NucleonExpr) : List NucleonExpr :=
  nucleons.insertionSort fun a b => compare a b ≠ .gt

end Collider

/-- `Collider`: the atomic expressions and the normalized values of a list of expressions. -/
structure Collider (α : Type) where
  atomicExprs : List AtomicExpr
  normalizedValues : NormalizedValues α

namespace Collider

variable {α : Type} [LinearOrder α]

/-- `Collider::new`. -/
def new (sourceExprs : List (PartitionExpr α)) : Except (CheckError α) (Collider α) := do
  let normalizedValues := normalize sourceExprs
  let atomicExprs ← sourceExprs.zipIdx.mapM fun (expr, index) =>
    collideExpr normalizedValues index expr
  pure ⟨atomicExprs.flatten.map fun expr => { expr with nucleons := sortNucleons expr.nucleons },
    normalizedValues⟩

/-! ## Rows as points -/

/-- The point of a row: each column at the place of the row's value among the column's
normalized values. -/
def pointOf (normalizedValues : NormalizedValues α) (values : List (Option α)) :
    List (ℕ × ℚ) :=
  normalizedValues.map fun entry =>
    (entry.1, Grid.rank (entry.2.map Prod.fst) (withBot (values.getD entry.1 none)))

/-- Normalized values as the first walk leaves them: one entry a column, and the values of each
column strictly increasing, numbered `0, 1, 2, …`, and not none. -/
structure WellFormed (normalizedValues : NormalizedValues α) : Prop where
  nodup : (normalizedValues.map Prod.fst).Nodup
  numbered : ∀ column values, (column, values) ∈ normalizedValues →
    ∃ cs : List (WithBot α), cs ≠ [] ∧ cs.Pairwise (· < ·) ∧ values = normalizeFrom 0 cs

lemma map_fst_normalizeFrom {β : Type} (start : ℚ) (cs : List β) :
    (normalizeFrom start cs).map Prod.fst = cs := by
  induction cs generalizing start with
  | nil => rfl
  | cons c cs ih => simp [normalizeFrom, ih]

/-- The `j`-th value is numbered `start + j`. -/
lemma mem_normalizeFrom {β : Type} {start : ℚ} {cs : List β} {c : β} {q : ℚ} :
    (c, q) ∈ normalizeFrom start cs ↔ ∃ j, ∃ hj : j < cs.length, cs[j] = c ∧ q = start + j := by
  induction cs generalizing start with
  | nil => simp [normalizeFrom]
  | cons c' cs ih =>
    simp only [normalizeFrom, List.mem_cons, Prod.mk.injEq, ih, normalizeStep]
    constructor
    · rintro (⟨rfl, rfl⟩ | ⟨j, hj, hc, rfl⟩)
      · exact ⟨0, by simp, rfl, by simp⟩
      · exact ⟨j + 1, by simpa using hj, hc, by push_cast; linarith⟩
    · rintro ⟨j, hj, hc, rfl⟩
      cases j with
      | zero => exact .inl ⟨by simpa using hc.symm, by simp⟩
      | succ j => exact .inr ⟨j, by simpa using hj, hc, by push_cast; linarith⟩

lemma map_fst_pointOf (normalizedValues : NormalizedValues α) (values : List (Option α)) :
    (pointOf normalizedValues values).map Prod.fst = normalizedValues.map Prod.fst := by
  simp [pointOf]

lemma lookup_pointOf {normalizedValues : NormalizedValues α} (hnv : WellFormed normalizedValues)
    (values : List (Option α)) {column : ℕ} {vs : List (WithBot α × ℚ)}
    (h : (column, vs) ∈ normalizedValues) :
    (pointOf normalizedValues values).lookup column =
      some (Grid.rank (vs.map Prod.fst) (withBot (values.getD column none))) := by
  refine Grid.lookup_eq_some_of_mem ?_ (List.mem_map.mpr ⟨_, h, rfl⟩)
  rw [map_fst_pointOf]
  exact hnv.nodup

/-! ## Evaluation on the places -/

/-- `cmp_value` is the order of `WithBot α`: `NULL` is below every value. -/
lemma cmpValue_eq_compare (x v : Option α) :
    cmpValue x v = compare (withBot x) (withBot v) := by
  cases x with
  | none =>
    cases v with
    | none => exact (compare_eq_iff_eq.mpr rfl).symm
    | some b => exact (compare_lt_iff_lt.mpr (WithBot.bot_lt_coe b)).symm
  | some a =>
    cases v with
    | none => exact (compare_gt_iff_gt.mpr (WithBot.bot_lt_coe a)).symm
    | some b =>
      rcases lt_trichotomy a b with h | rfl | h
      · rw [cmpValue, compare_lt_iff_lt.mpr h]
        exact (compare_lt_iff_lt.mpr (WithBot.coe_lt_coe.mpr h)).symm
      · rw [cmpValue, compare_eq_iff_eq.mpr rfl]
        exact (compare_eq_iff_eq.mpr rfl).symm
      · rw [cmpValue, compare_gt_iff_gt.mpr h]
        exact (compare_gt_iff_gt.mpr (WithBot.coe_lt_coe.mpr h)).symm

/-- `perform_op` with a comparison is its `GluonOp` on the outcome of comparing the values. -/
lemma performOp_eq_ofOrdering {op : RestrictedOp} {gluonOp : GluonOp}
    (hop : GluonOp.ofRestrictedOp op = some gluonOp) (x v : Option α) :
    performOp x op v = gluonOp.ofOrdering (compare (withBot x) (withBot v)) := by
  cases op <;> cases hop <;>
    simp [performOp, GluonOp.ofOrdering, cmpValue_eq_compare, bne]

/-- A nucleon on a normalized value compares the row's value of the column with the value that
the normalized value stands for. -/
lemma holdsAt_of_lookupNormalized {normalizedValues : NormalizedValues α}
    (hnv : WellFormed normalizedValues) (values : List (Option α)) {column : ℕ} {v : Option α}
    {q : ℚ} (h : lookupNormalized normalizedValues column v = some q) (gluonOp : GluonOp) :
    (NucleonExpr.mk column gluonOp q).holdsAt (pointOf normalizedValues values) =
      gluonOp.ofOrdering (compare (withBot (values.getD column none)) (withBot v)) := by
  obtain ⟨vs, hvs, hq⟩ := Option.bind_eq_some_iff.mp h
  have hmem := Grid.mem_of_lookup_eq_some hvs
  obtain ⟨cs, -, hcs, rfl⟩ := hnv.numbered _ _ hmem
  obtain ⟨j, hj, hcj, rfl⟩ := mem_normalizeFrom.mp (Grid.mem_of_lookup_eq_some hq)
  simp only [NucleonExpr.holdsAt, lookup_pointOf hnv values hmem, map_fst_normalizeFrom, zero_add]
  rw [GluonOp.eval_eq_ofOrdering,
    ← Grid.compare_rank hcs _ hj, hcj]

variable {normalizedValues : NormalizedValues α}

/-- A nucleon stands for the comparison it was made from, on every row. -/
lemma holdsAt_tryCreateNucleon (hnv : WellFormed normalizedValues) (values : List (Option α))
    {e : PartitionExpr α} {nucleon : NucleonExpr}
    (h : tryCreateNucleon normalizedValues e = .ok nucleon) :
    nucleon.holdsAt (pointOf normalizedValues values) = evaluateExpr values e := by
  cases e with
  | colVal column op v =>
    simp only [tryCreateNucleon] at h
    split at h
    · cases h
    · rename_i gluonOp hop
      split at h
      · rename_i q hq
        cases h
        rw [holdsAt_of_lookupNormalized hnv values hq, evaluateExpr, performOp_eq_ofOrdering hop]
      · cases h
  | valCol v op column =>
    simp only [tryCreateNucleon] at h
    split at h
    · cases h
    · rename_i gluonOp hop
      split at h
      · rename_i q hq
        cases h
        rw [holdsAt_of_lookupNormalized hnv values hq, GluonOp.flip_ofOrdering, evaluateExpr,
          performOp_eq_ofOrdering hop, ← Std.OrientedOrd.eq_swap]
      · cases h
  | node lhs op rhs =>
    simp only [tryCreateNucleon] at h
    split at h <;> cases h

lemma all_holdsAt_collectNucleonsFromExpr (hnv : WellFormed normalizedValues)
    (values : List (Option α)) {e : PartitionExpr α} {nucleons : List NucleonExpr}
    (h : collectNucleonsFromExpr normalizedValues e = .ok nucleons) :
    nucleons.all (·.holdsAt (pointOf normalizedValues values)) = evaluateExpr values e := by
  fun_induction collectNucleonsFromExpr normalizedValues e generalizing nucleons with
  | case1 lhs rhs ihl ihr =>
    obtain ⟨l, hl, h⟩ := Except.bind_eq_ok.mp h
    obtain ⟨r, hr, h⟩ := Except.bind_eq_ok.mp h
    cases h
    rw [List.all_append, ihl hl, ihr hr, evaluateExpr]
  | case2 => cases h
  | case3 => cases h
  | case4 e _ _ _ =>
    obtain ⟨nucleon, hn, rfl⟩ := Except.map_eq_ok.mp h
    simp only [List.all_cons, List.all_nil, Bool.and_true]
    exact holdsAt_tryCreateNucleon hnv values hn

/-- An expression holds on a row exactly where one of its atomic expressions holds at the row's
point. -/
lemma any_holdsAt_collideExpr (hnv : WellFormed normalizedValues) (values : List (Option α))
    (index : ℕ) {e : PartitionExpr α} {atoms : List AtomicExpr}
    (h : collideExpr normalizedValues index e = .ok atoms) :
    atoms.any (·.holdsAt (pointOf normalizedValues values)) = evaluateExpr values e := by
  fun_induction collideExpr normalizedValues index e generalizing atoms with
  | case1 lhs rhs ihl ihr =>
    obtain ⟨l, hl, h⟩ := Except.bind_eq_ok.mp h
    obtain ⟨r, hr, h⟩ := Except.bind_eq_ok.mp h
    cases h
    rw [List.any_append, ihl hl, ihr hr, evaluateExpr]
  | case2 => cases h
  | case3 => cases h
  | case4 e _ _ _ =>
    obtain ⟨nucleons, hn, h⟩ := Except.bind_eq_ok.mp h
    cases h
    simp only [List.any_cons, List.any_nil, Bool.or_false, AtomicExpr.holdsAt]
    exact all_holdsAt_collectNucleonsFromExpr hnv values hn

/-! ## What `Collider::new` gives -/

omit [LinearOrder α] in
lemma collectColumnValues_ne_nil (e : PartitionExpr α) : collectColumnValues e ≠ [] := by
  induction e with
  | colVal => simp [collectColumnValues]
  | valCol => simp [collectColumnValues]
  | node lhs op rhs ihl _ => simp [collectColumnValues, ihl]

/-- The first walk numbers the values of each column it meets. -/
lemma wellFormed_normalize (exprs : List (PartitionExpr α)) : WellFormed (normalize exprs) where
  nodup := by
    have hlt := Grid.pairwise_sortDedup ((exprs.flatMap collectColumnValues).map Prod.fst)
    simp only [normalize, List.map_map, Function.comp_def, List.map_id']
    exact hlt.imp ne_of_lt
  numbered := by
    intro column values h
    simp only [normalize, List.mem_map, Prod.mk.injEq] at h
    obtain ⟨c, hc, rfl, rfl⟩ := h
    refine ⟨_, ?_, Grid.pairwise_sortDedup _, rfl⟩
    obtain ⟨pair, hpair, rfl⟩ := List.mem_map.mp (Grid.mem_sortDedup.mp hc)
    refine List.ne_nil_of_mem (a := withBot pair.2) ?_
    rw [Grid.mem_sortDedup, List.mem_filterMap]
    exact ⟨pair, hpair, by simp⟩

lemma normalize_ne_nil {exprs : List (PartitionExpr α)} (h : exprs ≠ []) :
    normalize exprs ≠ [] := by
  obtain ⟨e, he⟩ := List.exists_mem_of_ne_nil exprs h
  obtain ⟨pair, hpair⟩ := List.exists_mem_of_ne_nil _ (collectColumnValues_ne_nil e)
  have hcol : pair.1 ∈ Grid.sortDedup ((exprs.flatMap collectColumnValues).map Prod.fst) :=
    Grid.mem_sortDedup.mpr (List.mem_map_of_mem (List.mem_flatMap.mpr ⟨e, he, hpair⟩))
  simp only [normalize, ne_eq, List.map_eq_nil_iff]
  exact List.ne_nil_of_mem hcol

lemma holdsAt_sortNucleons (point : List (ℕ × ℚ)) (expr : AtomicExpr) :
    ({ expr with nucleons := sortNucleons expr.nucleons } : AtomicExpr).holdsAt point =
      expr.holdsAt point :=
  (List.perm_insertionSort _ _).all_eq

/-- `Collider::new` keeps the normalized values of its first walk, and splits each source
expression, at its own index, into atomic expressions whose nucleons it sorts. -/
lemma new_eq_ok {exprs : List (PartitionExpr α)} {collider : Collider α}
    (h : new exprs = .ok collider) :
    collider.normalizedValues = normalize exprs ∧
      ∃ groups : List (List AtomicExpr),
        List.Forall₂ (fun e atoms => ∃ index, collideExpr (normalize exprs) index e = .ok atoms)
          exprs groups ∧
        collider.atomicExprs =
          groups.flatten.map fun expr => { expr with nucleons := sortNucleons expr.nucleons } := by
  obtain ⟨groups, hgroups, h⟩ := Except.bind_eq_ok.mp h
  cases h
  refine ⟨rfl, groups, ?_, rfl⟩
  have hzip : List.Forall₂ (fun (pair : PartitionExpr α × ℕ) atoms =>
      ∃ index, collideExpr (normalize exprs) index pair.1 = .ok atoms) exprs.zipIdx groups :=
    (Except.forall₂_of_mapM_eq_ok hgroups).imp fun ⟨_, index⟩ _ h => ⟨index, h⟩
  have hmap := (List.forall₂_map_left_iff (f := Prod.fst)
    (R := fun e atoms => ∃ index, collideExpr (normalize exprs) index e = .ok atoms)).mpr hzip
  rwa [List.zipIdx_map_fst] at hmap

end Collider

end Greptime
