import Mathlib

/-!
# Rows over a growing list of named columns

A table whose columns have names and whose rows are lists of cells, one a column, keeps beside
the names a map from each name to its position (a `HashMap<String, usize>`, modelled as the
names with their positions, `List.zipIdx`).  New columns go at the end, so a row written before
a column existed is shorter than the table, and is filled with nulls when the table is read.

A row is read here as a function from column names to cells, mapped over the columns
(`columns.map cell`).  With distinct names the reading is exact: setting the cell at the
position of a name updates the function at that name (`set_map_eq_map_update`), and a new
column with its cell is the same update (`map_update_of_not_mem`).  After a run of updates the
cell of a name is the last value given it (`foldl_update_apply`).  `addNew` adds the names not
there yet, in the order they are first met; `rightpad_append` fills a row written before some
columns existed, with nulls where the function is null.

A `HashMap` from keys to values is kept, the same way, as its entries in the order they were
added; `lookup_map_replace_of_ne`, `lookup_map_replace_self` and `lookup_append_new` read it
after a value is replaced or a new entry added.

Nothing here names a program.
-/

namespace Greptime

namespace Columns

/-! ## Positions -/

section Positions

variable {α : Type} [BEq α] [LawfulBEq α]

lemma lookup_zipIdx_eq_none {a : α} : ∀ {l : List α} {k : ℕ}, (l.zipIdx k).lookup a = none ↔ a ∉ l
  | [], _ => by simp
  | b :: l, k => by
    rw [List.zipIdx_cons, List.lookup_cons]
    by_cases hab : a = b
    · simp [hab]
    · rw [beq_false_of_ne hab]
      simp only [lookup_zipIdx_eq_none, List.mem_cons, hab, false_or]

/-- The position `col_indexes` gives a name holds that name. -/
lemma getElem?_of_lookup_zipIdx {a : α} :
    ∀ {l : List α} {k i : ℕ}, (l.zipIdx k).lookup a = some i → k ≤ i ∧ l[i - k]? = some a
  | [], _, _, h => by simp at h
  | b :: l, k, i, h => by
    rw [List.zipIdx_cons, List.lookup_cons] at h
    by_cases hab : a = b
    · simp only [hab, beq_self_eq_true, Option.some.injEq] at h
      subst h
      simp [hab]
    · rw [beq_false_of_ne hab] at h
      obtain ⟨hki, hl⟩ := getElem?_of_lookup_zipIdx h
      refine ⟨by omega, ?_⟩
      rw [show i - k = i - (k + 1) + 1 by omega, List.getElem?_cons_succ]
      exact hl

end Positions

/-! ## Rows as functions of the column names -/

section Rows

variable {α β : Type} [DecidableEq α]

/-- Setting the cell at the position of a name, among distinct names, is updating the row's
function at that name. -/
lemma set_map_eq_map_update {l : List α} (hl : l.Nodup) {i : ℕ} {a : α} (hi : l[i]? = some a)
    (f : α → β) (b : β) : (l.map f).set i b = l.map (Function.update f a b) := by
  obtain ⟨hlen, hget⟩ := List.getElem?_eq_some_iff.mp hi
  apply List.ext_getElem (by simp)
  intro j hj _
  simp only [List.getElem_set, List.getElem_map]
  split_ifs with hij
  · subst hij
    rw [hget, Function.update_self]
  · -- another position holds another name
    have hjl : j < l.length := by simpa using hj
    have hne : l[j] ≠ a := by
      rw [← hget]
      exact fun h => hij ((hl.getElem_inj_iff).mp h).symm
    rw [Function.update_of_ne hne]

lemma map_update_of_not_mem {l : List α} {a : α} (ha : a ∉ l) (f : α → β) (b : β) :
    l.map (Function.update f a b) = l.map f :=
  List.map_congr_left fun x hx => Function.update_of_ne (by rintro rfl; exact ha hx) b f

/-- After a run of updates, a name holds the last value given it, or what it held. -/
lemma foldl_update_apply [BEq α] [LawfulBEq α] {γ : Type} (g : γ → β) :
    ∀ (l : List (α × γ)) (f : α → Option β) (a : α),
      (l.foldl (fun (h : α → Option β) (p : α × γ) => Function.update h p.1 (some (g p.2))) f) a =
        ((l.reverse.lookup a).map g).or (f a)
  | [], f, a => by simp
  | (k, c) :: l, f, a => by
    rw [List.foldl_cons, foldl_update_apply g l, List.reverse_cons, List.lookup_append]
    cases hl : l.reverse.lookup a with
    | some c => rfl
    | none =>
      -- no later update: the one at `k`, if `k` is `a`
      by_cases hk : a = k
      · subst hk
        simp
      · simp [List.lookup_cons, beq_false_of_ne hk, Function.update_of_ne hk]

end Rows

/-! ## Adding the names not there yet -/

section AddNew

variable {α : Type} [DecidableEq α]

/-- The columns with each name of a list that is not among them added at the end, in the
order the names are first met. -/
def addNew (columns names : List α) : List α :=
  names.foldl (fun columns a => if a ∈ columns then columns else columns ++ [a]) columns

@[simp] lemma addNew_nil (columns : List α) : addNew columns [] = columns := rfl

lemma addNew_cons_of_mem {columns : List α} {a : α} (ha : a ∈ columns) (names : List α) :
    addNew columns (a :: names) = addNew columns names := by
  simp [addNew, ha]

lemma addNew_cons_of_not_mem {columns : List α} {a : α} (ha : a ∉ columns) (names : List α) :
    addNew columns (a :: names) = addNew (columns ++ [a]) names := by
  simp [addNew, ha]

lemma prefix_addNew : ∀ (columns names : List α), columns <+: addNew columns names
  | _, [] => List.prefix_refl _
  | columns, a :: names => by
    by_cases ha : a ∈ columns
    · rw [addNew_cons_of_mem ha]
      exact prefix_addNew columns names
    · rw [addNew_cons_of_not_mem ha]
      exact (List.prefix_append columns [a]).trans (prefix_addNew _ names)

lemma nodup_addNew : ∀ {columns : List α} (names : List α), columns.Nodup →
    (addNew columns names).Nodup
  | _, [], h => h
  | columns, a :: names, h => by
    by_cases ha : a ∈ columns
    · rw [addNew_cons_of_mem ha]
      exact nodup_addNew names h
    · rw [addNew_cons_of_not_mem ha]
      refine nodup_addNew names (List.nodup_append.mpr ⟨h, List.nodup_singleton a, ?_⟩)
      simp only [List.mem_singleton]
      intro x hx b hb hxb
      subst hb hxb
      exact ha hx

lemma mem_addNew {a : α} : ∀ {columns names : List α},
    a ∈ addNew columns names ↔ a ∈ columns ∨ a ∈ names
  | _, [] => by simp
  | columns, b :: names => by
    by_cases hb : b ∈ columns
    · rw [addNew_cons_of_mem hb, mem_addNew]
      constructor
      · rintro (h | h)
        · exact .inl h
        · exact .inr (List.mem_cons_of_mem b h)
      · rintro (h | h)
        · exact .inl h
        · rcases List.mem_cons.mp h with rfl | h
          · exact .inl hb
          · exact .inr h
    · rw [addNew_cons_of_not_mem hb, mem_addNew]
      simp only [List.mem_append, List.mem_cons]
      tauto

end AddNew

/-! ## Rows written before some columns existed -/

/-- A row filled with nulls up to the columns `l` that it holds the function's cells of is
filled up to more columns by more nulls, and still holds its cells when the function is null on
the new columns. -/
lemma rightpad_append {α β : Type} {row : List (Option β)} {l more : List α} {f : α → Option β}
    (hlen : row.length ≤ l.length) (hrow : row.rightpad l.length none = l.map f)
    (hmore : ∀ a ∈ more, f a = none) :
    row.rightpad (l ++ more).length none = (l ++ more).map f := by
  have hnull : more.map f = List.replicate more.length none :=
    List.eq_replicate_iff.mpr ⟨by simp, fun b hb => by
      obtain ⟨a, ha, rfl⟩ := List.mem_map.mp hb
      exact hmore a ha⟩
  unfold List.rightpad at hrow ⊢
  rw [List.length_append, show l.length + more.length - row.length =
    (l.length - row.length) + more.length by omega, List.replicate_add, ← List.append_assoc, hrow,
    List.map_append, hnull]

/-- A row as long as the columns needs no nulls. -/
lemma rightpad_of_length_eq {α : Type} {row : List (Option α)} {n : ℕ} (h : row.length = n) :
    row.rightpad n none = row := by
  simp [List.rightpad, h]

/-! ## A map kept as its entries -/

section Entries

variable {κ ν : Type} [DecidableEq κ] [BEq κ] [LawfulBEq κ]

/-- The entries of a key given another value, as `entry(k)` does on an occupied key: the other
keys keep theirs. -/
lemma lookup_map_replace_of_ne {k k' : κ} (v : ν) (hk : k' ≠ k) :
    ∀ l : List (κ × ν),
      (l.map fun e => if e.1 = k then (k, v) else e).lookup k' = l.lookup k'
  | [] => rfl
  | (a, b) :: l => by
    by_cases ha : a = k
    · subst ha
      simp [List.lookup_cons, beq_false_of_ne hk, lookup_map_replace_of_ne v hk l]
    · simp only [List.map_cons, if_neg ha, List.lookup_cons, lookup_map_replace_of_ne v hk l]

lemma lookup_map_replace_self {k : κ} (v : ν) :
    ∀ {l : List (κ × ν)}, (l.lookup k).isSome →
      (l.map fun e => if e.1 = k then (k, v) else e).lookup k = some v
  | [], h => by simp at h
  | (a, b) :: l, h => by
    by_cases ha : a = k
    · subst ha
      simp
    · rw [List.lookup_cons, beq_false_of_ne (Ne.symm ha)] at h
      simp only [List.map_cons, if_neg ha, List.lookup_cons, beq_false_of_ne (Ne.symm ha)]
      exact lookup_map_replace_self v h

/-- A new key's entry, added at the end, as `entry(k).or_insert_with` does on a vacant key. -/
lemma lookup_append_new {l : List (κ × ν)} {k : κ} (hk : l.lookup k = none) (v : ν) (k' : κ) :
    (l ++ [(k, v)]).lookup k' = if k' = k then some v else l.lookup k' := by
  rw [List.lookup_append]
  split_ifs with h
  · subst h
    simp [hk]
  · simp [List.lookup_cons, beq_false_of_ne h]

end Entries

end Columns

end Greptime
