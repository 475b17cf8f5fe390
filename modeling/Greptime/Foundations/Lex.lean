import Mathlib

/-!
# Lexicographic order of lists

`Vec<u8>` and `[u8]` are ordered lexicographically, and a range of a sorted map of byte strings
is an interval of that order.  Key prefixes meet the order in three ways, each a lemma here:
two strings that begin with `r` compare as what follows `r` (`append_lt_append_left_iff`),
every string between two such strings begins with `r` (`exists_append_of_le_of_lt`), and the
strings at or above `q ++ [v]` and below `q ++ [w]`, for `w` the successor of `v`, are those
that begin with `q ++ [v]` (`le_lt_succ_iff_isPrefix`).  Two strings compare as their
beginnings when these have one length or when neither begins the other
(`append_lt_append_of_length_eq`, `append_lt_append_of_not_isPrefix`).

The order is the core one (`List.lt`, with `l₁ ≤ l₂` for `¬ l₂ < l₁`) over any strict
order that is irreflexive, asymmetric and trichotomous.

Items are also sorted by a pair, the first value ascending and, between equal first values,
the second descending; `total_asc_desc` and `trans_asc_desc` make that order a total preorder.
Nothing here names a program.
-/

namespace Greptime

namespace Lex

section Split

variable {α : Type} [LT α]

/-- Strings that begin with parts of one length compare as the parts, and then as the rest. -/
lemma append_lt_append_of_length_eq : ∀ {P Q : List α} (x y : List α), P.length = Q.length →
    (P ++ x < Q ++ y ↔ P < Q ∨ P = Q ∧ x < y)
  | [], [], x, y, _ => by simp [List.not_lt_nil]
  | p :: P, q :: Q, x, y, h => by
    rw [List.cons_append, List.cons_append, List.cons_lt_cons_iff, List.cons_lt_cons_iff,
      append_lt_append_of_length_eq x y (by simpa using h), List.cons.injEq]
    constructor
    · rintro (hpq | ⟨rfl, hPQ | ⟨rfl, hxy⟩⟩)
      · exact .inl (.inl hpq)
      · exact .inl (.inr ⟨rfl, hPQ⟩)
      · exact .inr ⟨⟨rfl, rfl⟩, hxy⟩
    · rintro ((hpq | ⟨rfl, hPQ⟩) | ⟨⟨rfl, rfl⟩, hxy⟩)
      · exact .inl hpq
      · exact .inr ⟨rfl, .inl hPQ⟩
      · exact .inr ⟨rfl, .inr ⟨rfl, hxy⟩⟩

/-- Strings that begin with parts neither of which begins the other compare as the parts: they
differ within both. -/
lemma append_lt_append_of_not_isPrefix : ∀ {u v : List α} (x y : List α), ¬ u.IsPrefix v →
    ¬ v.IsPrefix u → (u ++ x < v ++ y ↔ u < v)
  | [], _, _, _, hu, _ => absurd (List.nil_prefix) hu
  | _ :: _, [], _, _, _, hv => absurd (List.nil_prefix) hv
  | a :: u, b :: v, x, y, hu, hv => by
    rw [List.cons_append, List.cons_append, List.cons_lt_cons_iff, List.cons_lt_cons_iff]
    by_cases hab : a = b
    · subst hab
      rw [List.cons_prefix_cons] at hu hv
      rw [append_lt_append_of_not_isPrefix x y (fun h => hu ⟨rfl, h⟩) (fun h => hv ⟨rfl, h⟩)]
    · simp only [hab, false_and, or_false]

end Split

section Irrefl

variable {α : Type} [LT α] [Std.Irrefl (· < · : α → α → Prop)]

lemma append_lt_append_left_iff (r : List α) {a b : List α} : r ++ a < r ++ b ↔ a < b := by
  induction r with
  | nil => rfl
  | cons x r ih => simp [ih]

lemma append_le_append_left_iff (r : List α) {a b : List α} : r ++ a ≤ r ++ b ↔ a ≤ b := by
  rw [← List.not_lt, ← List.not_lt, append_lt_append_left_iff]

end Irrefl

variable {α : Type} [LT α] [Std.Asymm (· < · : α → α → Prop)]
  [Std.Trichotomous (· < · : α → α → Prop)]

/-- A string of greatest elements is below exactly the strings it begins. -/
lemma le_iff_isPrefix_of_top : ∀ {f : List α}, (∀ x ∈ f, ∀ y, ¬ x < y) →
    ∀ {k : List α}, f ≤ k ↔ f.IsPrefix k
  | [], _, k => by simp
  | x :: f, htop, [] => by simp
  | x :: f, htop, y :: k => by
    have hf : ∀ z ∈ f, ∀ y, ¬ z < y := fun z hz => htop z (List.mem_cons_of_mem x hz)
    rw [List.cons_le_cons_iff, List.cons_prefix_cons, le_iff_isPrefix_of_top hf]
    constructor
    · rintro (hxy | h)
      · exact absurd hxy (htop x List.mem_cons_self y)
      · exact h
    · exact Or.inr

variable [Std.Irrefl (· < · : α → α → Prop)]

/-- Between two strings that begin with `r`, every string begins with `r`. -/
lemma exists_append_of_le_of_lt :
    ∀ (r : List α) {a b k : List α}, r ++ a ≤ k → k < r ++ b → ∃ c, k = r ++ c
  | [], _, _, k, _, _ => ⟨k, rfl⟩
  | x :: r, a, b, [], hlo, _ => absurd hlo (by simp)
  | x :: r, a, b, y :: k, hlo, hhi => by
    rw [List.cons_append, List.cons_le_cons_iff] at hlo
    rw [List.cons_append, List.cons_lt_cons_iff] at hhi
    -- the first elements agree, or one string would be on the wrong side
    obtain ⟨rfl, hrest⟩ : x = y ∧ r ++ a ≤ k := by
      rcases hlo with hxy | hxy
      · rcases hhi with hyx | ⟨rfl, -⟩
        · exact absurd hyx (Std.Asymm.asymm _ _ hxy)
        · exact absurd hxy (Std.Irrefl.irrefl _)
      · exact hxy
    obtain ⟨c, rfl⟩ := exists_append_of_le_of_lt r hrest (by
      rcases hhi with hyx | ⟨-, hhi⟩
      · exact absurd hyx (Std.Irrefl.irrefl _)
      · exact hhi)
    exact ⟨c, rfl⟩

/-- Between `q ++ [v]` and `q ++ [w]`, for `w` the successor of `v`, are the strings that begin
with `q ++ [v]`. -/
lemma le_lt_succ_iff_isPrefix (q : List α) {v w : α} (hvw : v < w)
    (hsucc : ∀ c, ¬ c < v → c < w → c = v) {k : List α} :
    q ++ [v] ≤ k ∧ k < q ++ [w] ↔ (q ++ [v]).IsPrefix k := by
  constructor
  · rintro ⟨hlo, hhi⟩
    obtain ⟨c, rfl⟩ := exists_append_of_le_of_lt q hlo hhi
    rw [append_le_append_left_iff] at hlo
    rw [append_lt_append_left_iff] at hhi
    match c, hlo, hhi with
    | [], hlo, _ => exact absurd hlo (by simp)
    | c :: cs, hlo, hhi =>
      rw [List.cons_le_cons_iff] at hlo
      rw [List.cons_lt_cons_iff] at hhi
      have hc : c = v := by
        refine hsucc c (fun hcv => ?_) ?_
        · rcases hlo with hvc | ⟨rfl, -⟩
          · exact Std.Asymm.asymm _ _ hvc hcv
          · exact Std.Irrefl.irrefl _ hcv
        · rcases hhi with hcw | ⟨-, hnil⟩
          · exact hcw
          · simp at hnil
      subst hc
      exact ⟨cs, by simp⟩
  · rintro ⟨t, rfl⟩
    refine ⟨List.IsPrefix.le (List.prefix_append _ _), ?_⟩
    rw [List.append_assoc, append_lt_append_left_iff, List.singleton_append]
    exact List.cons_lt_cons_iff.mpr (Or.inl hvw)

/-! ## First ascending, then second descending -/

section AscDesc

variable {β γ : Type}

/-- Any two pairs compare one way or the other. -/
lemma total_asc_desc [LinearOrder β] [LinearOrder γ] (x y : β) (s t : γ) :
    (x < y ∨ (x = y ∧ t ≤ s)) ∨ (y < x ∨ (y = x ∧ s ≤ t)) := by
  rcases lt_trichotomy x y with h | h | h
  · exact .inl (.inl h)
  · rcases le_total s t with h' | h'
    · exact .inr (.inr ⟨h.symm, h'⟩)
    · exact .inl (.inr ⟨h, h'⟩)
  · exact .inr (.inl h)

lemma trans_asc_desc [Preorder β] [Preorder γ] {x y z : β} {s t u : γ}
    (hxy : x < y ∨ (x = y ∧ t ≤ s)) (hyz : y < z ∨ (y = z ∧ u ≤ t)) :
    x < z ∨ (x = z ∧ u ≤ s) := by
  rcases hxy with hxy | ⟨hxy, hts⟩ <;> rcases hyz with hyz | ⟨hyz, hut⟩
  · exact .inl (hxy.trans hyz)
  · exact .inl (hyz ▸ hxy)
  · exact .inl (hxy ▸ hyz)
  · exact .inr ⟨hxy.trans hyz, hut.trans hts⟩

end AscDesc

end Lex

end Greptime
