import Mathlib.Data.List.Chain
import Mathlib.Data.List.Sort

/-!
# Keeping the first element of every run

Readers that remove duplicates from a sorted stream never look further back than one
element: they remember the key of the element they saw last and drop the next one when its
key is the same.  `dropRepeats f p l` is that loop over a list: it keeps an element of `l`
exactly when its key `f a` differs from the key of the element just before it, where `p` is
the key of the element seen before `l` started (`none` at the start of a stream).

Two families of facts are proved here.

* The streaming facts: reading `l₁ ++ l₂` is reading `l₁` and then reading `l₂` from the
  last key of `l₁` (`dropRepeats_append`), and a list whose neighbours already have distinct
  keys is kept whole, except possibly its head (`dropRepeats_of_isChain`).
* The sorted facts: on a list sorted by key, the kept elements have strictly increasing keys
  (`dropRepeats_pairwise_lt`), every key of the list is kept once
  (`exists_mem_dropRepeats`), and when equal keys are ordered by a secondary measure that
  decreases, the kept element of each key is the one of largest measure
  (`le_of_mem_dropRepeats`).

Nothing in this file names a program: the key is any type with decidable equality.
-/

namespace Greptime

variable {α β : Type*}

/-- Keeps an element exactly when its key differs from the key of the element before it;
`p` is the key of the element read before the list started. -/
def dropRepeats [DecidableEq β] (f : α → β) : Option β → List α → List α
  | _, [] => []
  | p, a :: l =>
    if p = some (f a) then dropRepeats f (some (f a)) l else a :: dropRepeats f (some (f a)) l

/-- The key remembered after reading `l` from the remembered key `p`. -/
def lastKey (f : α → β) (p : Option β) (l : List α) : Option β :=
  match l.getLast? with
  | some a => some (f a)
  | none => p

section Streaming

variable (f : α → β)

@[simp] lemma lastKey_nil (p : Option β) : lastKey f p [] = p := rfl

@[simp] lemma lastKey_cons (p : Option β) (a : α) (l : List α) :
    lastKey f p (a :: l) = lastKey f (some (f a)) l := by
  unfold lastKey
  rw [List.getLast?_cons]
  cases l.getLast? <;> rfl

lemma lastKey_append (p : Option β) (l₁ l₂ : List α) :
    lastKey f p (l₁ ++ l₂) = lastKey f (lastKey f p l₁) l₂ := by
  induction l₁ generalizing p with
  | nil => rfl
  | cons a l₁ ih => simp [ih]

variable [DecidableEq β]

@[simp] lemma dropRepeats_nil (p : Option β) : dropRepeats f p [] = [] := rfl

lemma dropRepeats_cons (p : Option β) (a : α) (l : List α) :
    dropRepeats f p (a :: l) =
      if p = some (f a) then dropRepeats f (some (f a)) l
      else a :: dropRepeats f (some (f a)) l := rfl

@[simp] lemma dropRepeats_cons_same (a : α) (l : List α) :
    dropRepeats f (some (f a)) (a :: l) = dropRepeats f (some (f a)) l := by
  simp [dropRepeats_cons]

@[simp] lemma dropRepeats_cons_of_ne {p : Option β} {a : α} (h : p ≠ some (f a)) (l : List α) :
    dropRepeats f p (a :: l) = a :: dropRepeats f (some (f a)) l := by
  simp [dropRepeats_cons, h]

/-- Reading `l₁ ++ l₂` is reading `l₁`, then reading `l₂` from the last key of `l₁`: this is
what lets a streaming reader process its input one batch at a time. -/
lemma dropRepeats_append (p : Option β) (l₁ l₂ : List α) :
    dropRepeats f p (l₁ ++ l₂) = dropRepeats f p l₁ ++ dropRepeats f (lastKey f p l₁) l₂ := by
  induction l₁ generalizing p with
  | nil => rfl
  | cons a l₁ ih =>
    rw [List.cons_append, dropRepeats_cons, dropRepeats_cons, lastKey_cons]
    split <;> simp [ih]

lemma dropRepeats_sublist (p : Option β) (l : List α) : (dropRepeats f p l).Sublist l := by
  induction l generalizing p with
  | nil => exact List.Sublist.slnil
  | cons a l ih =>
    rw [dropRepeats_cons]
    split
    · exact (ih _).cons a
    · exact (ih _).cons_cons a

lemma mem_of_mem_dropRepeats {p : Option β} {l : List α} {a : α} (h : a ∈ dropRepeats f p l) :
    a ∈ l :=
  (dropRepeats_sublist f p l).subset h

/-- After an element `a`, a list whose neighbours have distinct keys is kept whole. -/
lemma dropRepeats_of_isChain {l : List α} :
    ∀ a : α, (a :: l).IsChain (fun a b => f a ≠ f b) → dropRepeats f (some (f a)) l = l := by
  induction l with
  | nil => intro a _; rfl
  | cons b l ih =>
    intro a hab
    obtain ⟨hne, hbl⟩ := List.isChain_cons_cons.mp hab
    rw [dropRepeats_cons_of_ne f (by simpa using hne), ih b hbl]

/-- Every key of the list is either the remembered key or the key of a kept element. -/
lemma exists_mem_dropRepeats (p : Option β) {l : List α} {a : α} (ha : a ∈ l) :
    p = some (f a) ∨ ∃ b ∈ dropRepeats f p l, f b = f a := by
  induction l generalizing p with
  | nil => simp at ha
  | cons c l ih =>
    rw [dropRepeats_cons]
    rcases List.mem_cons.mp ha with rfl | ha
    · split
      · exact .inl ‹_›
      · exact .inr ⟨a, List.mem_cons_self, rfl⟩
    · rcases ih (some (f c)) ha with hc | ⟨b, hb, hba⟩
      · have hca : f c = f a := Option.some_injective _ hc
        split
        · exact .inl (by rw [← hca]; assumption)
        · exact .inr ⟨c, List.mem_cons_self, hca⟩
      · split
        · exact .inr ⟨b, hb, hba⟩
        · exact .inr ⟨b, List.mem_cons_of_mem c hb, hba⟩

end Streaming

section Sorted

variable [LinearOrder β] (f : α → β)

/-- On a list sorted by key and bounded below by the remembered key `k`, every kept element
has a key strictly above `k`. -/
lemma lt_of_mem_dropRepeats {k : β} {l : List α} (hl : l.Pairwise (fun a b => f a ≤ f b))
    (hk : ∀ a ∈ l, k ≤ f a) {b : α} (hb : b ∈ dropRepeats f (some k) l) : k < f b := by
  induction l generalizing k with
  | nil => simp at hb
  | cons c l ih =>
    have hkc : k ≤ f c := hk c List.mem_cons_self
    have hcl : ∀ a ∈ l, f c ≤ f a := (List.pairwise_cons.mp hl).1
    rw [dropRepeats_cons] at hb
    split at hb
    · rename_i hkc'
      have : k = f c := Option.some_injective _ hkc'
      subst this
      exact ih (List.pairwise_cons.mp hl).2 hcl hb
    · rename_i hkc'
      have hlt : k < f c := lt_of_le_of_ne hkc (fun h => hkc' (by rw [h]))
      rcases List.mem_cons.mp hb with rfl | hb
      · exact hlt
      · exact hlt.trans (ih (List.pairwise_cons.mp hl).2 hcl hb)

/-- Reading a list sorted by key keeps one element per key, in strictly increasing key
order. -/
lemma dropRepeats_pairwise_lt (p : Option β) {l : List α}
    (hl : l.Pairwise (fun a b => f a ≤ f b)) :
    (dropRepeats f p l).Pairwise (fun a b => f a < f b) := by
  induction l generalizing p with
  | nil => simp
  | cons c l ih =>
    have hrest := ih (some (f c)) (List.pairwise_cons.mp hl).2
    rw [dropRepeats_cons]
    split
    · exact hrest
    · refine List.pairwise_cons.mpr ⟨fun b hb => ?_, hrest⟩
      exact lt_of_mem_dropRepeats f (List.pairwise_cons.mp hl).2
        (List.pairwise_cons.mp hl).1 hb

/-- When equal keys are ordered by a decreasing measure `s`, the element kept for a key has
the largest measure among all elements of the list with that key. -/
lemma le_of_mem_dropRepeats (s : α → ℕ) (p : Option β) {l : List α}
    (hl : l.Pairwise (fun a b => f a < f b ∨ (f a = f b ∧ s b ≤ s a))) {b : α}
    (hb : b ∈ dropRepeats f p l) {a : α} (ha : a ∈ l) (hab : f a = f b) : s a ≤ s b := by
  have hkey : l.Pairwise (fun a b => f a ≤ f b) :=
    hl.imp (fun h => h.elim le_of_lt (fun h => h.1.le))
  induction l generalizing p with
  | nil => simp at ha
  | cons c l ih =>
    have hcl := (List.pairwise_cons.mp hl).1
    rw [dropRepeats_cons] at hb
    -- `b` is either the head (kept) or an element kept from the tail, whose key is then
    -- strictly above the head's.
    have htail : b ∈ dropRepeats f (some (f c)) l → s a ≤ s b := by
      intro hb'
      have hcb : f c < f b := lt_of_mem_dropRepeats f (List.pairwise_cons.mp hkey).2
        (List.pairwise_cons.mp hkey).1 hb'
      rcases List.mem_cons.mp ha with rfl | ha
      · exact absurd hab (ne_of_lt hcb)
      · exact ih (some (f c)) (List.pairwise_cons.mp hl).2 hb' ha
          (List.pairwise_cons.mp hkey).2
    split at hb
    · exact htail hb
    · rcases List.mem_cons.mp hb with rfl | hb
      · rcases List.mem_cons.mp ha with rfl | ha
        · exact le_rfl
        · rcases hcl a ha with h | h
          · exact absurd hab.symm (ne_of_lt h)
          · exact h.2
      · exact htail hb

end Sorted

/-! ## Runs across a concatenation -/

section Flatten

variable (f : α → β)

/-- When the lists of `ls` have no neighbours with the same key, two neighbours of the
concatenation with the same key straddle a boundary: the first ends a prefix of `ls`. -/
lemma exists_take_flatten_of_adjacent {ls : List (List α)}
    (h : ∀ l ∈ ls, l.IsChain (fun a b => f a ≠ f b)) {l₁ l₂ : List α} {x y : α}
    (hsplit : ls.flatten = l₁ ++ x :: y :: l₂) (hxy : f x = f y) :
    ∃ k, (ls.take k).flatten = l₁ ++ [x] := by
  induction ls generalizing l₁ with
  | nil => simp at hsplit
  | cons l ls ih =>
    have htail : ∀ l' ∈ ls, l'.IsChain (fun a b => f a ≠ f b) :=
      fun l' hl' => h l' (List.mem_cons_of_mem _ hl')
    rw [List.flatten_cons, List.append_eq_append_iff] at hsplit
    rcases hsplit with ⟨a, rfl, hrest⟩ | ⟨c, rfl, hc⟩
    -- the pair lies in the later lists
    · obtain ⟨k, hk⟩ := ih htail hrest
      exact ⟨k + 1, by simp [hk]⟩
    -- the pair starts in `l`: `c` is what `l` has from `x` on
    · rcases c with _ | ⟨c, _ | ⟨d, c'⟩⟩
      · have hnext : ls.flatten = [] ++ x :: y :: l₂ := by simpa using hc.symm
        obtain ⟨k, hk⟩ := ih htail hnext
        exact ⟨k + 1, by simp [hk]⟩
      · simp only [List.singleton_append, List.cons.injEq] at hc
        obtain ⟨rfl, -⟩ := hc
        exact ⟨1, by simp⟩
      · simp only [List.cons_append, List.cons.injEq] at hc
        obtain ⟨rfl, rfl, -⟩ := hc
        have hchain := h _ List.mem_cons_self
        exact absurd hxy (List.isChain_append_cons_cons.mp hchain).2.1

end Flatten

end Greptime
