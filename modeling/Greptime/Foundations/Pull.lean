import Mathlib.Order.Basic
import Mathlib.Data.List.Basic

/-!
# Pulling a finite stream through a buffering transducer

Many readers are built the same way: a *strategy* sees the input one element at a time and
may answer an element with an output or keep it buffered, and a *flush* hands over what is
buffered once the input is exhausted.  The reader around the strategy is a pull loop: each
call pushes input elements until one of them yields an output, and at the end of the input
returns the flush.  Its consumer calls it until it returns nothing.

This file models that loop (`Transducer.pull`, and `Transducer.drain` for the consumer,
with a fuel bound on the number of calls) and shows that, for a strategy whose second flush
is always empty, enough fuel makes the consumer see exactly `Transducer.run`: the outputs
of every push in input order, then the flush (`drain_eq_run`).  Facts about a strategy can
then be proved by induction over the input on `run`, one push at a time.

Nothing here names a program.
-/

namespace Greptime

/-- A strategy that sees its input one element at a time: `push` may emit an output, and
`finish` flushes what is buffered once the input is exhausted. -/
structure Transducer (σ α β : Type*) where
  push : σ → α → σ × Option β
  finish : σ → σ × Option β

namespace Transducer

variable {σ α β : Type*} (t : Transducer σ α β)

/-- One call of the reader: push input elements until one yields an output; at the end of
the input, flush.  Returns the new state, the input left and the output. -/
def pull : σ → List α → σ × List α × Option β
  | s, [] => ((t.finish s).1, [], (t.finish s).2)
  | s, a :: l =>
    match t.push s a with
    | (s', some b) => (s', l, some b)
    | (s', none) => pull s' l

/-- The consumer: calls `pull` until it returns nothing, at most `fuel` times. -/
def drain : ℕ → σ → List α → List β
  | 0, _, _ => []
  | n + 1, s, l =>
    match t.pull s l with
    | (s', l', some b) => b :: drain n s' l'
    | (_, _, none) => []

/-- Everything the strategy emits on `l`, in input order, then the flush. -/
def run : σ → List α → List β
  | s, [] => (t.finish s).2.toList
  | s, a :: l => (t.push s a).2.toList ++ run (t.push s a).1 l

@[simp] lemma run_nil (s : σ) : t.run s [] = (t.finish s).2.toList := rfl

@[simp] lemma run_cons (s : σ) (a : α) (l : List α) :
    t.run s (a :: l) = (t.push s a).2.toList ++ t.run (t.push s a).1 l := rfl

/-- A strategy whose flush empties its buffer: flushing twice yields nothing the second
time. -/
def FlushOnce : Prop := ∀ s, (t.finish (t.finish s).1).2 = none

/-- A pull that returns nothing has consumed the whole input, every push and the flush
included, without output. -/
lemma run_eq_nil_of_pull {s s' : σ} {l l' : List α} (h : t.pull s l = (s', l', none)) :
    t.run s l = [] := by
  induction l generalizing s with
  | nil =>
    have hfin : (t.finish s).2 = none := congrArg (fun p => p.2.2) h
    simp [hfin]
  | cons a l ih =>
    unfold pull at h
    rcases hpush : t.push s a with ⟨s₁, _ | b⟩
    · rw [hpush] at h
      simp [hpush, ih h]
    · rw [hpush] at h
      simp at h

/-- A pull that returns `b` has emitted the first output of `run`; it has consumed at least
one input element, or it flushed at the end of the input and the next pull returns nothing. -/
lemma run_eq_cons_of_pull (hflush : t.FlushOnce) {s s' : σ} {l l' : List α} {b : β}
    (h : t.pull s l = (s', l', some b)) :
    t.run s l = b :: t.run s' l' ∧
      (l'.length < l.length ∨ (l' = [] ∧ (t.pull s' l').2.2 = none)) := by
  induction l generalizing s with
  | nil =>
    simp only [pull, Prod.mk.injEq] at h
    obtain ⟨rfl, rfl, hb⟩ := h
    have hnone : (t.finish (t.finish s).1).2 = none := hflush s
    refine ⟨by simp [hb, hnone], .inr ⟨rfl, hnone⟩⟩
  | cons a l ih =>
    unfold pull at h
    rcases hpush : t.push s a with ⟨s₁, _ | b₁⟩
    · rw [hpush] at h
      obtain ⟨hrun, hlen⟩ := ih h
      refine ⟨by simp [hpush, hrun], .inl ?_⟩
      rcases hlen with hlt | ⟨rfl, _⟩
      · exact Nat.lt_succ_of_lt hlt
      · exact Nat.succ_pos _
    · rw [hpush] at h
      simp only [Prod.mk.injEq, Option.some.injEq] at h
      obtain ⟨rfl, rfl, rfl⟩ := h
      exact ⟨by simp [hpush], .inl (Nat.lt_succ_self _)⟩

lemma drain_eq_nil_of_pull {s s' : σ} {l l' : List α} (h : t.pull s l = (s', l', none))
    (n : ℕ) : t.drain n s l = [] := by
  cases n with
  | zero => rfl
  | succ n => simp [drain, h]

/-- With one call more than the input has elements and one for the flush, the consumer sees
everything the strategy emits. -/
theorem drain_eq_run (hflush : t.FlushOnce) :
    ∀ (n : ℕ) (s : σ) (l : List α), l.length + 2 ≤ n → t.drain n s l = t.run s l := by
  intro n
  induction n with
  | zero => intro s l hn; omega
  | succ n ih =>
    intro s l hn
    rcases hpull : t.pull s l with ⟨s', l', _ | b⟩
    · rw [drain_eq_nil_of_pull t hpull, run_eq_nil_of_pull t hpull]
    · obtain ⟨hrun, hlen⟩ := t.run_eq_cons_of_pull hflush hpull
      simp only [drain, hpull, hrun, List.cons.injEq, true_and]
      rcases hlen with hlt | ⟨rfl, hnone⟩
      · exact ih s' l' (by omega)
      -- after the flush the next pull returns nothing, so both sides are empty
      · have hnone' : t.pull s' [] = ((t.pull s' []).1, [], none) := by
          simp only [pull] at hnone ⊢
          rw [hnone]
        rw [drain_eq_nil_of_pull t hnone', run_eq_nil_of_pull t hnone']

end Transducer

end Greptime
