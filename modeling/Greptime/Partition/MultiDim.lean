import Mathlib

/-!
# Multi-dimensional partition rules (`partition::multi_dim`)

A `MultiDimPartitionRule` sends a row to the region of the first expression the row satisfies,
and to the default region 0 when it satisfies none.  An expression compares a partition column
with a constant, or joins two expressions with `AND` or `OR`.

The rule is applied in two ways.  `find_region` evaluates the expressions on the row's values
(`Value`), where `NULL` equals `NULL` and is below every other value, so that `NULL < 10` holds.
`split_record_batch` evaluates them as DataFusion expressions over the whole batch, where a
comparison with `NULL` is unknown and `AND` and `OR` are Kleene's; it keeps the mask of each
region with a true row, joins them with the `or` kernel, and gives the rows that no mask
selects, by the `not` kernel, to the default region.  Both kernels propagate nulls, and a row
whose mask entry is null is not selected by `filter_record_batch`.

`splitRecordBatch_drops_null_row` splits the batch `[NULL, 5]` under the rule
`a < 10 → 1, a ≥ 10 → 2`: the row `NULL`, which `find_region` sends to region 1, is selected by
no mask.

A value is `Option α` for a linearly ordered `α`: the columns have the types of the rule's
constants.
-/

namespace Greptime

/-- `RestrictedOp`. -/
inductive RestrictedOp
  | eq
  | notEq
  | lt
  | ltEq
  | gt
  | gtEq
  | and
  | or
  deriving DecidableEq, Repr

/-- A `PartitionExpr` of the shapes `evaluate_expr` accepts: a column against a value, a value
against a column, or two expressions.  A column is its index in `partition_columns`. -/
inductive PartitionExpr (α : Type)
  | colVal (column : ℕ) (op : RestrictedOp) (v : Option α)
  | valCol (v : Option α) (op : RestrictedOp) (column : ℕ)
  | node (lhs : PartitionExpr α) (op : RestrictedOp) (rhs : PartitionExpr α)
  deriving DecidableEq

/-- `MultiDimPartitionRule`: the number of partition columns, and a region for each
expression. -/
structure MultiDimPartitionRule (α : Type) where
  columns : ℕ
  regions : List ℕ
  exprs : List (PartitionExpr α)
  deriving DecidableEq

/-- `DEFAULT_REGION`. -/
def defaultRegion : ℕ := 0

section Evaluate

variable {α : Type} [LinearOrder α]

/-- `Ord for Value`: `NULL` is below every other value. -/
def cmpValue : Option α → Option α → Ordering
  | none, none => .eq
  | none, some _ => .lt
  | some _, none => .gt
  | some a, some b => compare a b

/-- `MultiDimPartitionRule::perform_op`; `NULL` equals `NULL`.  The source has no comparison
for `AND` and `OR` here (`unreachable!`); the model answers `false`. -/
def performOp (lhs : Option α) (op : RestrictedOp) (rhs : Option α) : Bool :=
  match op with
  | .eq => lhs == rhs
  | .notEq => lhs != rhs
  | .lt => cmpValue lhs rhs == .lt
  | .ltEq => cmpValue lhs rhs != .gt
  | .gt => cmpValue lhs rhs == .gt
  | .gtEq => cmpValue lhs rhs != .lt
  | .and | .or => false

/-- `MultiDimPartitionRule::evaluate_expr` on a row's values.  A column past the row reads as
`NULL`; the source indexes within bounds for a row of the rule's width. -/
def evaluateExpr (values : List (Option α)) : PartitionExpr α → Bool
  | .colVal column op v => performOp (values.getD column none) op v
  | .valCol v op column => performOp v op (values.getD column none)
  | .node lhs op rhs =>
    match op with
    | .and => evaluateExpr values lhs && evaluateExpr values rhs
    | .or => evaluateExpr values lhs || evaluateExpr values rhs
    | _ => false

/-- `MultiDimPartitionRule::find_region` on a row of the rule's width. -/
def MultiDimPartitionRule.findRegion (rule : MultiDimPartitionRule α) (values : List (Option α)) :
    ℕ :=
  match (rule.exprs.zip rule.regions).find? (fun (expr, _) => evaluateExpr values expr) with
  | some (_, region) => region
  | none => defaultRegion

/-- A DataFusion comparison: unknown where either side is `NULL`. -/
def compareSql (lhs : Option α) (op : RestrictedOp) (rhs : Option α) : Option Bool :=
  match lhs, rhs with
  | some a, some b =>
    some (match op with
      | .eq => a == b
      | .notEq => a != b
      | .lt => a < b
      | .ltEq => a ≤ b
      | .gt => a > b
      | .gtEq => a ≥ b
      | .and | .or => false)
  | _, _ => none

/-- Kleene's `AND` of DataFusion: false wins over unknown. -/
def andKleene : Option Bool → Option Bool → Option Bool
  | some false, _ | _, some false => some false
  | some true, some true => some true
  | _, _ => none

/-- Kleene's `OR` of DataFusion: true wins over unknown. -/
def orKleene : Option Bool → Option Bool → Option Bool
  | some true, _ | _, some true => some true
  | some false, some false => some false
  | _, _ => none

/-- The physical expression of `PartitionExpr::try_as_physical_expr` on one row. -/
def evalMask (values : List (Option α)) : PartitionExpr α → Option Bool
  | .colVal column op v => compareSql (values.getD column none) op v
  | .valCol v op column => compareSql v op (values.getD column none)
  | .node lhs op rhs =>
    match op with
    | .and => andKleene (evalMask values lhs) (evalMask values rhs)
    | .or => orKleene (evalMask values lhs) (evalMask values rhs)
    | _ => none

/-- The expression joins only with `AND` and `OR`, and every value it reads on the row, from a
column or a constant, is not `NULL`. -/
def PartitionExpr.readsNonNull (values : List (Option α)) : PartitionExpr α → Bool
  | .colVal column _ v => (values.getD column none).isSome && v.isSome
  | .valCol v _ column => v.isSome && (values.getD column none).isSome
  | .node lhs op rhs =>
    (op == .and || op == .or) && lhs.readsNonNull values && rhs.readsNonNull values

theorem compareSql_some (a : α) (op : RestrictedOp) (b : α) :
    compareSql (some a) op (some b) = some (performOp (some a) op (some b)) := by
  rcases lt_trichotomy a b with hlt | rfl | hgt
  · have hc : compare a b = .lt := compare_lt_iff_lt.mpr hlt
    cases op <;> simp [compareSql, performOp, cmpValue, bne, hc, hlt, le_of_lt hlt,
      not_lt.mpr (le_of_lt hlt)]
  · cases op <;> simp [compareSql, performOp, cmpValue]
  · have hc : compare a b = .gt := compare_gt_iff_gt.mpr hgt
    cases op <;> simp [compareSql, performOp, cmpValue, bne, hc, hgt, le_of_lt hgt,
      not_le.mpr hgt]

theorem andKleene_some (x y : Bool) : andKleene (some x) (some y) = some (x && y) := by
  cases x <;> cases y <;> rfl

theorem orKleene_some (x y : Bool) : orKleene (some x) (some y) = some (x || y) := by
  cases x <;> cases y <;> rfl

/-- On a row whose values the expression reads are not `NULL`, the mask of DataFusion is the
answer of `evaluate_expr`: the two evaluations differ only on `NULL`. -/
theorem evalMask_eq_evaluateExpr (values : List (Option α)) :
    ∀ e : PartitionExpr α, e.readsNonNull values = true →
      evalMask values e = some (evaluateExpr values e)
  | .colVal column op v, h => by
    obtain ⟨a, ha⟩ := Option.isSome_iff_exists.mp (Bool.and_eq_true_iff.mp h).1
    obtain ⟨b, rfl⟩ := Option.isSome_iff_exists.mp (Bool.and_eq_true_iff.mp h).2
    simp only [evalMask, evaluateExpr, ha, compareSql_some]
  | .valCol v op column, h => by
    obtain ⟨a, rfl⟩ := Option.isSome_iff_exists.mp (Bool.and_eq_true_iff.mp h).1
    obtain ⟨b, hb⟩ := Option.isSome_iff_exists.mp (Bool.and_eq_true_iff.mp h).2
    simp only [evalMask, evaluateExpr, hb, compareSql_some]
  | .node lhs op rhs, h => by
    simp only [PartitionExpr.readsNonNull, Bool.and_eq_true] at h
    obtain ⟨⟨hop, hl⟩, hr⟩ := h
    have ihl := evalMask_eq_evaluateExpr values lhs hl
    have ihr := evalMask_eq_evaluateExpr values rhs hr
    cases op <;> simp_all [evalMask, evaluateExpr, andKleene_some, orKleene_some]

end Evaluate

/-! ## Boolean arrays -/

/-- A `BooleanArray`: one entry a row, `none` where the row is null. -/
abbrev BooleanArray := List (Option Bool)

/-- `BooleanArray::true_count`: the rows that are valid and true. -/
def BooleanArray.trueCount (a : BooleanArray) : ℕ := a.count (some true)

/-- The `or` kernel of arrow: null where either side is null. -/
def BooleanArray.or (a b : BooleanArray) : BooleanArray :=
  List.zipWith (fun x y => do pure ((← x) || (← y))) a b

/-- The `not` kernel of arrow: null stays null. -/
def BooleanArray.not (a : BooleanArray) : BooleanArray := a.map (·.map (!·))

/-- A mask of a region to a list of row results as `filter_record_batch` reads it: a row is
selected where its entry is true. -/
def BooleanArray.selects (a : BooleanArray) (row : ℕ) : Bool := a.getD row none == some true

/-- Inserting into a `HashMap` of region masks: a region already there is replaced. -/
def insertMask (masks : List (ℕ × BooleanArray)) (region : ℕ) (mask : BooleanArray) :
    List (ℕ × BooleanArray) :=
  if masks.any (·.1 = region) then masks.map fun m => if m.1 = region then (region, mask) else m
  else masks ++ [(region, mask)]

namespace MultiDimPartitionRule

variable {α : Type} [LinearOrder α]

/-- `MultiDimPartitionRule::split_record_batch` on the rows' partition values: the mask of
each region.  A rule of one region takes every row. -/
def splitRecordBatch (rule : MultiDimPartitionRule α) (rows : List (List (Option α))) :
    List (ℕ × BooleanArray) :=
  match rule.regions with
  | [region] => [(region, rows.map fun _ => some true)]
  | _ =>
    let result := ((rule.exprs.zip rule.regions).filterMap fun (expr, region) =>
        let array := rows.map fun values => evalMask values expr
        if BooleanArray.trueCount array = 0 then none else some (region, array)).foldl
      (fun masks (region, mask) => insertMask masks region mask) []
    let selected := match result with
      | [(_, mask)] => mask
      | _ => result.foldl (fun selected (_, mask) => BooleanArray.or selected mask)
        (rows.map fun _ => some false)
    if BooleanArray.trueCount selected = rows.length then result
    else
      let unselected := BooleanArray.not selected
      match result.lookup defaultRegion with
      | some mask => insertMask result defaultRegion (BooleanArray.or mask unselected)
      | none => insertMask result defaultRegion unselected

end MultiDimPartitionRule

/-- The rule `a < 10 → 1, a ≥ 10 → 2` over one column. -/
def nullRule : MultiDimPartitionRule ℕ :=
  ⟨1, [1, 2], [.colVal 0 .lt (some 10), .colVal 0 .gtEq (some 10)]⟩

theorem splitRecordBatch_drops_null_row :
    nullRule.findRegion [none] = 1 ∧
      nullRule.splitRecordBatch [[none], [some 5]] =
        [(1, [none, some true]), (0, [none, some false])] ∧
      ∀ mask ∈ nullRule.splitRecordBatch [[none], [some 5]],
        BooleanArray.selects mask.2 0 = false := by
  refine ⟨rfl, rfl, ?_⟩
  decide

end Greptime
