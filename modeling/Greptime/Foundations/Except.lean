import Mathlib.Data.List.Forall2

/-!
# Taking `Except` computations apart

A computation in `Except ε` fails with an error or gives a value.  The lemmas here take a
`bind`, a `map`, a `mapM` or a `forM` apart into what its parts gave, so that proofs about programs
written with `do` name the intermediate results and never unfold `Except.bind`.

Nothing here names a program.
-/

namespace Greptime

namespace Except

variable {ε α β : Type}

@[simp] lemma ok_bind {a : α} {f : α → Except ε β} : (Except.ok a >>= f) = f a := rfl

lemma bind_eq_ok {x : Except ε α} {f : α → Except ε β} {b : β} :
    x >>= f = .ok b ↔ ∃ a, x = .ok a ∧ f a = .ok b := by
  cases x <;> simp [bind, Except.bind]

lemma bind_eq_error {x : Except ε α} {f : α → Except ε β} {e : ε} :
    x >>= f = .error e ↔ x = .error e ∨ ∃ a, x = .ok a ∧ f a = .error e := by
  cases x <;> simp [bind, Except.bind]

lemma map_eq_ok {x : Except ε α} {f : α → β} {b : β} :
    x.map f = .ok b ↔ ∃ a, x = .ok a ∧ f a = b := by
  cases x <;> simp [Except.map]

/-- A `mapM` whose every step succeeds succeeds. -/
lemma exists_mapM_eq_ok {f : α → Except ε β} :
    ∀ {l : List α}, (∀ a ∈ l, ∃ b, f a = .ok b) → ∃ bs, l.mapM f = .ok bs
  | [], _ => ⟨[], rfl⟩
  | a :: l, h => by
    obtain ⟨b, hb⟩ := h a List.mem_cons_self
    obtain ⟨bs, hbs⟩ := exists_mapM_eq_ok fun x hx => h x (List.mem_cons_of_mem _ hx)
    exact ⟨b :: bs, by simp [List.mapM_cons, hb, hbs, bind, Except.bind, pure, Except.pure]⟩

/-- A `mapM` whose every step gives the image of its element gives the image of the list. -/
lemma mapM_eq_ok_map {f : α → Except ε β} {g : α → β} :
    ∀ {l : List α}, (∀ a ∈ l, f a = .ok (g a)) → l.mapM f = .ok (l.map g)
  | [], _ => rfl
  | a :: l, h => by
    rw [List.mapM_cons, h a List.mem_cons_self,
      mapM_eq_ok_map fun x hx => h x (List.mem_cons_of_mem _ hx)]
    rfl

/-- A `mapM` that succeeds gives what each step gave. -/
lemma forall₂_of_mapM_eq_ok {f : α → Except ε β} :
    ∀ {l : List α} {bs : List β}, l.mapM f = .ok bs → List.Forall₂ (fun a b => f a = .ok b) l bs
  | [], bs, h => by
    cases h
    exact .nil
  | a :: l, bs, h => by
    rw [List.mapM_cons] at h
    obtain ⟨b, hb, h⟩ := bind_eq_ok.mp h
    obtain ⟨bs', hbs', h⟩ := bind_eq_ok.mp h
    cases h
    exact .cons hb (forall₂_of_mapM_eq_ok hbs')

/-- Each value a successful `mapM` gives comes from an element. -/
lemma exists_mem_of_mapM_eq_ok {f : α → Except ε β} {l : List α} {bs : List β}
    (h : l.mapM f = .ok bs) {b : β} (hb : b ∈ bs) : ∃ a ∈ l, f a = .ok b := by
  have hf := forall₂_of_mapM_eq_ok h
  clear h
  induction hf with
  | nil => cases hb
  | @cons a b' l bs hab _ ih =>
    rcases List.mem_cons.mp hb with rfl | hb
    · exact ⟨a, List.mem_cons_self, hab⟩
    · obtain ⟨a', ha', h'⟩ := ih hb
      exact ⟨a', List.mem_cons_of_mem _ ha', h'⟩

/-- Every step of a successful `mapM` succeeds. -/
lemma forall_ok_of_mapM_eq_ok {f : α → Except ε β} {l : List α} {bs : List β}
    (h : l.mapM f = .ok bs) : ∀ a ∈ l, ∃ b, f a = .ok b := by
  have hf := forall₂_of_mapM_eq_ok h
  clear h
  induction hf with
  | nil => intro a ha; cases ha
  | @cons a b l bs hab _ ih =>
    intro a' ha'
    rcases List.mem_cons.mp ha' with rfl | ha'
    · exact ⟨b, hab⟩
    · exact ih a' ha'

/-- A successful `mapM` gives as many values as there are elements. -/
lemma length_of_mapM_eq_ok {f : α → Except ε β} {l : List α} {bs : List β}
    (h : l.mapM f = .ok bs) : bs.length = l.length :=
  (forall₂_of_mapM_eq_ok h).length_eq.symm

@[simp] lemma mapError_eq_ok {ε' : Type} {x : Except ε α} {e : ε → ε'} {a : α} :
    x.mapError e = .ok a ↔ x = .ok a := by
  cases x <;> simp [Except.mapError]

/-- A loop of checks succeeds when every check does. -/
lemma forM_eq_ok {f : α → Except ε Unit} :
    ∀ {l : List α}, l.forM f = .ok ⟨⟩ ↔ ∀ a ∈ l, f a = .ok ⟨⟩
  | [] => by simp [pure, Except.pure]
  | a :: l => by
    rw [List.forM.eq_2, bind_eq_ok, List.forall_mem_cons, ← forM_eq_ok]
    constructor
    · rintro ⟨⟨⟩, ha, hl⟩
      exact ⟨ha, hl⟩
    · rintro ⟨ha, hl⟩
      exact ⟨⟨⟩, ha, hl⟩

/-- A `mapM` over the images of a list, by a function that commutes with the images. -/
lemma mapM_map_of_comm {γ δ : Type} {g : α → γ} {f : α → Except ε β} {f' : γ → Except ε δ}
    {h : β → δ} (hf : ∀ a, f' (g a) = (f a).map h) :
    ∀ l : List α, (l.map g).mapM f' = (l.mapM f).map (List.map h)
  | [] => rfl
  | a :: l => by
    rw [List.map_cons, List.mapM_cons, List.mapM_cons, hf, mapM_map_of_comm hf l]
    cases f a <;> cases l.mapM f <;> rfl

/-! ## Results up to the error

Two computations that fail in the same cases, possibly with different errors, and give the same
value otherwise, have the same `toOption`. -/

@[simp] lemma toOption_ok {a : α} : (Except.ok a : Except ε α).toOption = some a := rfl

@[simp] lemma toOption_error {e : ε} : (Except.error e : Except ε α).toOption = none := rfl

lemma toOption_bind {x : Except ε α} {f : α → Except ε β} :
    (x >>= f).toOption = x.toOption.bind fun a => (f a).toOption := by
  cases x <;> rfl

lemma toOption_map {x : Except ε α} {f : α → β} : (x.map f).toOption = x.toOption.map f := by
  cases x <;> rfl

/-- Two binds do the same up to the error when their first steps do, the second giving the image
of what the first gives, and so do their continuations. -/
lemma toOption_bind_of_map {α' β' : Type} {x : Except ε α} {x' : Except ε α'} {f : α → α'}
    {g : α → Except ε β} {g' : α' → Except ε β'} {h : β → β'}
    (hx : x'.toOption = x.toOption.map f) (hg : ∀ a, (g' (f a)).toOption = (g a).toOption.map h) :
    (x' >>= g').toOption = (x >>= g).toOption.map h := by
  cases x with
  | error e =>
    cases x' with
    | error e' => rfl
    | ok a' => cases hx
  | ok a =>
    cases x' with
    | error e' => cases hx
    | ok a' =>
      cases hx
      exact hg a

lemma toOption_bind_congr {x x' : Except ε α} (hx : x'.toOption = x.toOption)
    (g : α → Except ε β) : (x' >>= g).toOption = (x >>= g).toOption := by
  cases x <;> cases x' <;> cases hx <;> rfl

lemma eq_ok_of_toOption {x : Except ε α} {a : α} (h : x.toOption = some a) : x = .ok a := by
  cases x with
  | error e => cases h
  | ok b => cases h; rfl

/-! ## Loops whose effects stay when a turn fails -/

/-- A loop whose turns may fail, over a state that keeps what the turns did: the state after
the turns up to the first failure, and that failure.  A failing turn itself changes nothing. -/
def foldlUntilError {σ : Type} (f : σ → α → Except ε σ) : σ → List α → σ × Except ε Unit
  | s, [] => (s, .ok ())
  | s, a :: as =>
    match f s a with
    | .error e => (s, .error e)
    | .ok s' => foldlUntilError f s' as

lemma foldlUntilError_cons_of_error {σ : Type} {f : σ → α → Except ε σ} {s : σ} {a : α}
    {as : List α} {e : ε} (h : f s a = .error e) :
    foldlUntilError f s (a :: as) = (s, .error e) := by
  rw [foldlUntilError, h]

lemma foldlUntilError_cons_of_ok {σ : Type} {f : σ → α → Except ε σ} {s s' : σ} {a : α}
    {as : List α} (h : f s a = .ok s') :
    foldlUntilError f s (a :: as) = foldlUntilError f s' as := by
  rw [foldlUntilError, h]

/-- What the caller of such a loop sees: the final state when every turn succeeds, the first
failure otherwise, as `foldlM` gives them. -/
lemma foldlM_eq_foldlUntilError {σ : Type} (f : σ → α → Except ε σ) (s : σ) (l : List α) :
    l.foldlM f s = (foldlUntilError f s l).2.map fun _ => (foldlUntilError f s l).1 := by
  induction l generalizing s with
  | nil => rfl
  | cons a l ih =>
    rw [List.foldlM_cons]
    cases h : f s a with
    | error e => rw [foldlUntilError_cons_of_error h]; rfl
    | ok s' => rw [foldlUntilError_cons_of_ok h, ← ih]; rfl

/-- A fold over a larger state, each turn of which reads a part of it and rebuilds the state
around what it gives, with its errors renamed, is the fold over the part. -/
lemma foldlM_map_mapError {σ τ ε' : Type} (f : σ → α → Except ε σ) (inj : σ → τ) (proj : τ → σ)
    (hproj : ∀ s, proj (inj s) = s) (e : ε → ε') (l : List α) (s : σ) :
    l.foldlM (fun t a => ((f (proj t) a).map inj).mapError e) (inj s) =
      ((l.foldlM f s).map inj).mapError e := by
  induction l generalizing s with
  | nil => rfl
  | cons a l ih =>
    rw [List.foldlM_cons, List.foldlM_cons, hproj]
    cases f s a with
    | error err => rfl
    | ok s' => exact ih s'

/-! ## Two computations that agree -/

/-- Two computations that fail with the same error, or both give values in a relation. -/
def Rel {σ τ : Type} (R : σ → τ → Prop) : Except ε σ → Except ε τ → Prop
  | .error e, .error e' => e = e'
  | .ok s, .ok t => R s t
  | _, _ => False

section Rel

variable {σ τ : Type} {R : σ → τ → Prop}

/-- Each computation's value related to the other's, as functions of one computation. -/
lemma rel_map_map {x : Except ε α} {f : α → σ} {g : α → τ} (h : ∀ a, R (f a) (g a)) :
    Rel R (x.map f) (x.map g) := by
  cases x with
  | error e => rfl
  | ok a => exact h a

/-- What is read off related values agrees between the computations. -/
lemma Rel.map_eq {x : Except ε σ} {y : Except ε τ} (h : Rel R x y) {γ : Type} {f : σ → γ}
    {g : τ → γ} (hfg : ∀ s t, R s t → f s = g t) : x.map f = y.map g := by
  cases x with
  | error e =>
    cases y with
    | error e' =>
      cases h
      rfl
    | ok t => exact h.elim
  | ok s =>
    cases y with
    | error e' => exact h.elim
    | ok t => exact congrArg Except.ok (hfg s t h)

/-- Computations that start alike and go on in agreement agree. -/
lemma rel_bind_left {x : Except ε α} {f : α → Except ε σ} {g : α → Except ε τ}
    (h : ∀ a, Rel R (f a) (g a)) : Rel R (x >>= f) (x >>= g) := by
  cases x with
  | error e => rfl
  | ok a => exact h a

/-- A loop agrees with another when each turn does from related states. -/
lemma rel_foldlM {f : σ → α → Except ε σ} {g : τ → α → Except ε τ}
    (hstep : ∀ s t a, R s t → Rel R (f s a) (g t a)) :
    ∀ (l : List α) {s : σ} {t : τ}, R s t → Rel R (l.foldlM f s) (l.foldlM g t)
  | [], _, _, h => h
  | a :: l, s, t, h => by
    rw [List.foldlM_cons, List.foldlM_cons]
    have hturn := hstep s t a h
    cases hf : f s a with
    | error e =>
      cases hg : g t a with
      | error e' =>
        rw [hf, hg] at hturn
        cases hturn
        rfl
      | ok t' =>
        rw [hf, hg] at hturn
        exact hturn.elim
    | ok s' =>
      cases hg : g t a with
      | error e' =>
        rw [hf, hg] at hturn
        exact hturn.elim
      | ok t' =>
        rw [hf, hg] at hturn
        exact rel_foldlM hstep l hturn

end Rel

@[simp] lemma map_map {γ : Type} (x : Except ε α) (f : α → β) (g : β → γ) :
    (x.map f).map g = x.map (g ∘ f) := by
  cases x <;> rfl

lemma map_mapError {ε' γ : Type} (x : Except ε α) (e : ε → ε') (f : α → γ) :
    (x.mapError e).map f = (x.map f).mapError e := by
  cases x <;> rfl

/-- A loop that appends what each turn gives to a list is `mapM`. -/
lemma foldlM_append_eq_mapM {β : Type} (f : α → Except ε β) :
    ∀ (l : List α) (acc : List β),
      l.foldlM (fun acc a => (f a).map (acc ++ [·])) acc = (l.mapM f).map (acc ++ ·)
  | [], acc => by simp [Except.map, pure, Except.pure]
  | a :: l, acc => by
    rw [List.foldlM_cons, List.mapM_cons]
    cases f a with
    | error e => rfl
    | ok b =>
      show l.foldlM (fun acc a => (f a).map (acc ++ [·])) (acc ++ [b]) =
        (l.mapM f >>= fun bs => pure (b :: bs)).map (acc ++ ·)
      rw [foldlM_append_eq_mapM f l]
      cases l.mapM f with
      | error e => rfl
      | ok bs => simp [Except.map, pure, Except.pure]

/-! ## Streams of results

A stream whose items are results (`Stream<Item = Result<T>>`) is read up to its first error:
the consumers here stop there, so what a stream says is its items before that error, and the
error. -/

/-- The items of a stream of results before its first error. -/
@[simp] def okPrefix : List (Except ε α) → List α
  | [] => []
  | .ok a :: rest => a :: okPrefix rest
  | .error _ :: _ => []

/-- The first error of a stream of results, if any. -/
@[simp] def firstError : List (Except ε α) → Option ε
  | [] => none
  | .ok _ :: rest => firstError rest
  | .error e :: _ => some e

lemma okPrefix_map_ok_append (l : List α) (rest : List (Except ε α)) :
    okPrefix (l.map .ok ++ rest) = l ++ okPrefix rest := by
  induction l with
  | nil => rfl
  | cons a l ih => simp [ih]

end Except

end Greptime
