import Mathlib

/-!
# Keeping account of what a state machine holds

A system that hands items around (requests waiting for their answers, jobs in flight) loses
none and duplicates none when each step only moves items between its places and adds the items
the step brings in.  `perm_foldl` is the rule for whole runs: if the places after each step are
a permutation of the places before it and the step's new items, the places after a run are a
permutation of those at its start and all the items the run brought in.

Places are often the values of a map.  A map kept as an `AList` lists the items of all its
entries as `gather f s`; `gather_insert_of_notMem`, `gather_erase` and `gather_replace` say how
inserting, erasing and replacing an entry moves them.

Where a result holds only for runs whose events meet a condition in the state they find,
`AllowedRun` is such a run, and `AllowedRun.invariant` is the induction: an invariant kept by
every allowed step holds after every allowed run.  A balance that a step may move is kept up to
what the moves add up to: `along` adds them up over a run, and `AllowedRun.along_eq` is the rule.

Counters kept over many places change when one place does: `sum_map_set` and
`sum_map_eraseIdx` say by how much, `any_set` and `any_eraseIdx` when a test of the places
keeps its answer, and `any_set_eq_false` when it loses it.

Nothing here names a program.
-/

namespace Greptime

namespace Ledger

/-! ## Runs -/

section Runs

variable {σ ε γ : Type*}

/-- The places of a state machine after a run are its places at the start and the items the
run's events brought in, when each step moves items and adds its event's. -/
theorem perm_foldl (step : σ → ε → σ) (places : σ → List γ) (input : ε → List γ)
    (hstep : ∀ s e, (places (step s e)).Perm (places s ++ input e)) :
    ∀ (events : List ε) (s : σ),
      (places (events.foldl step s)).Perm (places s ++ events.flatMap input)
  | [], s => by simp
  | e :: es, s => by
    rw [List.foldl_cons, List.flatMap_cons, ← List.append_assoc]
    exact (perm_foldl step places input hstep es (step s e)).trans
      ((hstep s e).append_right _)

/-- An invariant that every step keeps holds after every run. -/
theorem invariant_foldl (inv : σ → Prop) (step : σ → ε → σ)
    (hstep : ∀ s e, inv s → inv (step s e)) : ∀ (events : List ε) {s : σ}, inv s →
      inv (events.foldl step s)
  | [], _, hs => hs
  | e :: es, s, hs => invariant_foldl inv step hstep es (hstep s e hs)

/-- A run whose every event meets `allowed` in the state it finds. -/
def AllowedRun (step : σ → ε → σ) (allowed : σ → ε → Prop) : σ → List ε → Prop
  | _, [] => True
  | s, e :: es => allowed s e ∧ AllowedRun step allowed (step s e) es

variable {step : σ → ε → σ} {allowed : σ → ε → Prop}

instance decidableAllowedRun [∀ s e, Decidable (allowed s e)] :
    ∀ s es, Decidable (AllowedRun step allowed s es)
  | _, [] => isTrue trivial
  | s, e :: es =>
    haveI := decidableAllowedRun (step s e) es
    inferInstanceAs (Decidable (allowed s e ∧ AllowedRun step allowed (step s e) es))

@[simp] lemma allowedRun_nil (s : σ) : AllowedRun step allowed s [] := trivial

@[simp] lemma allowedRun_cons (s : σ) (e : ε) (es : List ε) :
    AllowedRun step allowed s (e :: es) ↔
      allowed s e ∧ AllowedRun step allowed (step s e) es := Iff.rfl

/-- An invariant that every allowed step keeps holds after every allowed run. -/
theorem AllowedRun.invariant (inv : σ → Prop)
    (hstep : ∀ s e, inv s → allowed s e → inv (step s e)) {es : List ε} {s : σ} (hs : inv s)
    (hrun : AllowedRun step allowed s es) : inv (es.foldl step s) := by
  induction es generalizing s with
  | nil => exact hs
  | cons e es ih => exact ih (hstep s e hs hrun.1) hrun.2

/-- A run allowed by a condition is allowed by every weaker one. -/
lemma AllowedRun.mono {allowed' : σ → ε → Prop} (h : ∀ s e, allowed s e → allowed' s e)
    {es : List ε} {s : σ} (hrun : AllowedRun step allowed s es) : AllowedRun step allowed' s es := by
  induction es generalizing s with
  | nil => trivial
  | cons e es ih => exact ⟨h s e hrun.1, ih hrun.2⟩

/-- What `δ` adds up to along a run, each event taken in the state it finds. -/
def along [AddMonoid γ] (step : σ → ε → σ) (δ : σ → ε → γ) : σ → List ε → γ
  | _, [] => 0
  | s, e :: es => δ s e + along step δ (step s e) es

@[simp] lemma along_nil [AddMonoid γ] (δ : σ → ε → γ) (s : σ) : along step δ s [] = 0 := rfl

@[simp] lemma along_cons [AddMonoid γ] (δ : σ → ε → γ) (s : σ) (e : ε) (es : List ε) :
    along step δ s (e :: es) = δ s e + along step δ (step s e) es := rfl

/-- A quantity that every allowed step moves by `δ` ends an allowed run moved by what `δ` adds
up to along it. -/
theorem AllowedRun.along_eq [AddMonoid γ] (inv : σ → Prop) (q : σ → γ) (δ : σ → ε → γ)
    (hinv : ∀ s e, inv s → allowed s e → inv (step s e))
    (hq : ∀ s e, inv s → allowed s e → q (step s e) = q s + δ s e) {es : List ε} {s : σ}
    (hs : inv s) (hrun : AllowedRun step allowed s es) :
    q (es.foldl step s) = q s + along step δ s es := by
  induction es generalizing s with
  | nil => simp
  | cons e es ih =>
    rw [List.foldl_cons, ih (hinv s e hs hrun.1) hrun.2, hq s e hs hrun.1, along_cons, add_assoc]

/-- Along an allowed run, a `δ` that no allowed event moves adds up to nothing. -/
lemma AllowedRun.along_eq_zero [AddMonoid γ] (δ : σ → ε → γ) (hδ : ∀ s e, allowed s e → δ s e = 0)
    {es : List ε} {s : σ} (hrun : AllowedRun step allowed s es) : along step δ s es = 0 := by
  induction es generalizing s with
  | nil => rfl
  | cons e es ih => rw [along_cons, hδ s e hrun.1, ih hrun.2, add_zero]

end Runs

/-! ## Places of a list -/

section Places

variable {α G : Type*}

/-- An item of a list sits between two parts, which taking it out joins. -/
lemma exists_eraseIdx_split {l : List α} {j : ℕ} {a : α} (h : l[j]? = some a) :
    ∃ l₁ l₂, l = l₁ ++ a :: l₂ ∧ l.eraseIdx j = l₁ ++ l₂ := by
  obtain ⟨hj, rfl⟩ := List.getElem?_eq_some_iff.mp h
  refine ⟨l.take j, l.drop (j + 1), ?_, List.eraseIdx_eq_take_drop_succ _ _⟩
  rw [List.getElem_cons_drop, List.take_append_drop]

/-- An item of a list sits between two parts, which replacing it keeps. -/
lemma exists_set_split {l : List α} {j : ℕ} {a : α} (h : l[j]? = some a) (b : α) :
    ∃ l₁ l₂, l = l₁ ++ a :: l₂ ∧ l.set j b = l₁ ++ b :: l₂ := by
  obtain ⟨hj, rfl⟩ := List.getElem?_eq_some_iff.mp h
  refine ⟨l.take j, l.drop (j + 1), ?_, ?_⟩
  · rw [List.getElem_cons_drop, List.take_append_drop]
  · rw [List.set_eq_take_append_cons_drop, if_pos hj]

/-- Replacing an item by one a test agrees on keeps whether some item passes it. -/
lemma any_set {l : List α} {j : ℕ} {a : α} (h : l[j]? = some a) (p : α → Bool) {b : α}
    (hb : p b = p a) : (l.set j b).any p = l.any p := by
  obtain ⟨l₁, l₂, hl, hset⟩ := exists_set_split h b
  rw [hset, hl]
  simp [List.any_append, hb]

/-- Taking out an item that fails a test keeps whether some item passes it. -/
lemma any_eraseIdx {l : List α} {j : ℕ} {a : α} (h : l[j]? = some a) (p : α → Bool)
    (ha : p a = false) : (l.eraseIdx j).any p = l.any p := by
  obtain ⟨l₁, l₂, hl, herase⟩ := exists_eraseIdx_split h
  rw [herase, hl]
  simp [List.any_append, ha]

/-- Replacing the one item that passes a test by one that fails it leaves none that passes. -/
lemma any_set_eq_false {l : List α} {j : ℕ} {a : α} (h : l[j]? = some a) (p : α → Bool)
    {b : α} (ha : p a = true) (hb : p b = false) (hone : l.countP p ≤ 1) :
    (l.set j b).any p = false := by
  obtain ⟨l₁, l₂, hl, hset⟩ := exists_set_split h b
  rw [hl] at hone
  simp only [List.countP_append, List.countP_cons, ha, if_true] at hone
  have h₁ : l₁.countP p = 0 := by omega
  have h₂ : l₂.countP p = 0 := by omega
  rw [List.countP_eq_zero] at h₁ h₂
  rw [hset, List.any_eq_false]
  simp only [List.mem_append, List.mem_cons]
  rintro x (hx | rfl | hx)
  · exact h₁ x hx
  · simp [hb]
  · exact h₂ x hx

variable [AddCommGroup G] (f : α → G)

/-- Replacing one place of a list changes a total over its places by the change at that place. -/
lemma sum_map_set {l : List α} {j : ℕ} {a : α} (h : l[j]? = some a) (b : α) :
    ((l.set j b).map f).sum = (l.map f).sum - f a + f b := by
  obtain ⟨l₁, l₂, hl, hset⟩ := exists_set_split h b
  rw [hset, hl]
  simp only [List.map_append, List.map_cons, List.sum_append, List.sum_cons]
  abel

/-- Taking one place out of a list takes its part out of a total over its places. -/
lemma sum_map_eraseIdx {l : List α} {j : ℕ} {a : α} (h : l[j]? = some a) :
    ((l.eraseIdx j).map f).sum = (l.map f).sum - f a := by
  obtain ⟨l₁, l₂, hl, herase⟩ := exists_eraseIdx_split h
  rw [herase, hl]
  simp only [List.map_append, List.map_cons, List.sum_append, List.sum_cons]
  abel

end Places

/-! ## The items of a map's entries -/

section Entries

variable {α : Type*} {β : α → Type*} {γ : Type*}

variable (f : (a : α) → β a → List γ)

/-- The items held by all entries of a map, in the order of its entries. -/
def gather (s : AList β) : List γ := s.entries.flatMap fun e => f e.1 e.2

@[simp] lemma gather_empty : gather f (∅ : AList β) = [] := rfl

variable [DecidableEq α]

/-- Replacing the value of a key whose first entry follows `l₁` changes that entry only. -/
lemma kreplace_append_cons {a : α} (b b' : β a) :
    ∀ {l₁ : List (Sigma β)}, a ∉ l₁.keys → ∀ l₂,
      List.kreplace a b' (l₁ ++ ⟨a, b⟩ :: l₂) = l₁ ++ ⟨a, b'⟩ :: l₂
  | [], _, l₂ => List.lookmap_cons_some _ _ (if_pos rfl)
  | s :: l₁, h, l₂ => by
    rw [List.keys_cons, List.mem_cons, not_or] at h
    rw [List.cons_append, List.kreplace,
      List.lookmap_cons_none (f := fun s : Sigma β => if a = s.1 then some ⟨a, b'⟩ else none) _
        (if_neg h.1)]
    exact congrArg (s :: ·) (kreplace_append_cons b b' h.2 l₂)

variable {f} {s : AList β} {a : α} {b : β a}

/-- An entry of a map sits between entries of other keys. -/
lemma exists_split_of_lookup (h : s.lookup a = some b) :
    ∃ l₁ l₂ : List (Sigma β), a ∉ l₁.keys ∧ s.entries = l₁ ++ ⟨a, b⟩ :: l₂ ∧
      (s.erase a).entries = l₁ ++ l₂ := by
  have hmem : a ∈ s.entries.keys := AList.mem_keys.mp (AList.lookup_isSome.mp (by simp [h]))
  obtain ⟨b₀, l₁, l₂, hl₁, hsplit, herase⟩ := List.exists_of_kerase hmem
  have hb : b = b₀ := by
    have h₀ : (⟨a, b₀⟩ : Sigma β) ∈ s.entries := by simp [hsplit]
    exact s.nodupKeys.eq_of_mk_mem (AList.mem_lookup_iff.mp h) h₀
  subst hb
  exact ⟨l₁, l₂, hl₁, hsplit, herase⟩

lemma gather_insert_of_notMem (h : a ∉ s) (b : β a) :
    gather f (s.insert a b) = f a b ++ gather f s := by
  rw [gather, gather, AList.entries_insert_of_notMem h, List.flatMap_cons]

/-- Erasing an entry takes its items out. -/
lemma gather_erase (h : s.lookup a = some b) :
    (gather f s).Perm (f a b ++ gather f (s.erase a)) := by
  obtain ⟨l₁, l₂, -, hs, herase⟩ := exists_split_of_lookup h
  rw [gather, gather, herase, hs]
  simpa using List.perm_append_comm_assoc _ _ _

/-- Replacing an entry's value trades its items for the new value's. -/
lemma gather_replace (h : s.lookup a = some b) (b' : β a) :
    (gather f (s.replace a b') ++ f a b).Perm (gather f s ++ f a b') := by
  obtain ⟨l₁, l₂, hl₁, hs, -⟩ := exists_split_of_lookup h
  have hreplace : (s.replace a b').entries = l₁ ++ ⟨a, b'⟩ :: l₂ := by
    rw [← kreplace_append_cons b b' hl₁, ← hs]
    rfl
  rw [gather, gather, hreplace, hs]
  classical
  refine List.perm_iff_count.mpr fun x => ?_
  simp only [List.flatMap_append, List.flatMap_cons, List.count_append]
  omega

lemma lookup_replace_self (h : s.lookup a = some b) (b' : β a) :
    (s.replace a b').lookup a = some b' := by
  obtain ⟨l₁, l₂, hl₁, hs, -⟩ := exists_split_of_lookup h
  refine AList.mem_lookup_iff.mpr ?_
  change _ ∈ List.kreplace a b' s.entries
  rw [hs, kreplace_append_cons b b' hl₁]
  simp

lemma lookup_replace_ne {a' : α} (hne : a' ≠ a) (b' : β a) :
    (s.replace a b').lookup a' = s.lookup a' := by
  by_cases ha : a ∈ s
  · obtain ⟨b, hb⟩ := Option.isSome_iff_exists.mp (AList.lookup_isSome.mpr ha)
    obtain ⟨l₁, l₂, hl₁, hs, -⟩ := exists_split_of_lookup hb
    change List.dlookup a' (List.kreplace a b' s.entries) = List.dlookup a' s.entries
    rw [hs, kreplace_append_cons b b' hl₁, List.dlookup_append, List.dlookup_append,
      List.dlookup_cons_ne _ _ hne, List.dlookup_cons_ne _ _ hne]
  · have hnot : ∀ b : β a, (⟨a, b⟩ : Sigma β) ∉ s.entries := fun b hb =>
      ha (AList.mem_keys.mpr (List.mem_keys_of_mem hb))
    change List.dlookup a' (List.kreplace a b' s.entries) = List.dlookup a' s.entries
    rw [List.kreplace_of_forall_not a b' hnot]

/-- Replacing a value twice keeps the second. -/
lemma replace_replace (h : s.lookup a = some b) (b₁ b₂ : β a) :
    (s.replace a b₁).replace a b₂ = s.replace a b₂ := by
  obtain ⟨l₁, l₂, hl₁, hs, -⟩ := exists_split_of_lookup h
  refine AList.ext ?_
  change List.kreplace a b₂ (List.kreplace a b₁ s.entries) = List.kreplace a b₂ s.entries
  rw [hs, kreplace_append_cons b b₁ hl₁, kreplace_append_cons b₁ b₂ hl₁,
    kreplace_append_cons b b₂ hl₁]

/-- Replacing a value by itself changes nothing. -/
lemma replace_self (h : s.lookup a = some b) : s.replace a b = s :=
  AList.ext (List.kreplace_self s.nodupKeys (AList.mem_lookup_iff.mp h))

end Entries

end Ledger

end Greptime
