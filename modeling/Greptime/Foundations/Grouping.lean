import Mathlib

/-!
# Cutting a list into groups with a running summary

A walk over a list keeps the summaries of the groups it has closed and the summary of the group
it is in.  Each element either joins the current group, whose summary then grows by it, or
closes the group and starts the next one.  Scans that merge overlapping time ranges walk their
ranges this way: the summary is the hull of the group's ranges, and an element joins when its
range meets the hull.

`run_spec` says what the walk computes: the list cut into consecutive non-empty groups, one
summary for each, and at every cut the summary of the group before it refuses the first element
of the group after it.

`chunkBy` is the walk whose groups are the runs of one key (`Itertools::chunk_by`): its pieces
hold the list in order (`flatten_chunkBy`), each is a run of elements of its key
(`mem_chunkBy`, `sublist_of_mem_chunkBy`), and over keys that never decrease the keys of the
pieces strictly increase (`pairwise_chunkBy`).

Nothing here names a program.
-/

namespace Greptime

namespace Grouping

variable {α β : Type} (single : α → β) (extend : β → α → β) (joins : β → α → Bool)

/-- The summary of a group, grown from its first element; `none` for no element. -/
def summary : List α → Option β
  | [] => none
  | x :: g => some (g.foldl extend (single x))

/-- One element of the walk: the summaries of the closed groups and of the current one. -/
def step (acc : List β × Option β) (x : α) : List β × Option β :=
  match acc.2 with
  | none => (acc.1, some (single x))
  | some cur =>
    if joins cur x then (acc.1, some (extend cur x)) else (acc.1 ++ [cur], some (single x))

/-- The summaries of all the groups once the walk is over. -/
def run (l : List α) : List β :=
  let acc := l.foldl (step single extend joins) ([], none)
  acc.1 ++ acc.2.toList

/-- A cut between consecutive groups: the summary of the first refuses the first element of
the second. -/
def Cut (g g' : List α) : Prop :=
  ∀ s ∈ summary single extend g, ∀ x ∈ g'.head?, joins s x = false

/-- Consecutive non-empty groups of `l` with a cut between any two neighbours. -/
structure Grouped (l : List α) (groups : List (List α)) : Prop where
  flatten_eq : groups.flatten = l
  ne_nil : ∀ g ∈ groups, g ≠ []
  cuts : groups.IsChain (Cut single extend joins)

variable {single extend joins}

@[simp] lemma summary_singleton (x : α) : summary single extend [x] = some (single x) := rfl

lemma summary_append_singleton {g : List α} {s : β} (hg : summary single extend g = some s)
    (x : α) : summary single extend (g ++ [x]) = some (extend s x) := by
  cases g with
  | nil => cases hg
  | cons y g =>
    simp only [summary, Option.some.injEq] at hg
    simp [summary, List.foldl_append, hg]

variable (single extend) in
lemma exists_summary_eq {g : List α} (hg : g ≠ []) : ∃ s, summary single extend g = some s := by
  cases g with
  | nil => exact absurd rfl hg
  | cons y g => exact ⟨_, rfl⟩

/-- Growing the last group keeps the cuts: its first element is unchanged. -/
lemma isChain_cut_extend {groups : List (List α)} {g : List α}
    (h : (groups ++ [g]).IsChain (Cut single extend joins)) (hg : g ≠ []) (x : α) :
    (groups ++ [g ++ [x]]).IsChain (Cut single extend joins) := by
  obtain ⟨hgroups, -, hlast⟩ := List.isChain_append.mp h
  refine hgroups.append (List.isChain_singleton _) fun a ha b hb => ?_
  obtain ⟨y, g, rfl⟩ := List.exists_cons_of_ne_nil hg
  simp only [List.head?_cons, Option.mem_def, Option.some.injEq] at hb
  subst hb
  intro s hs z hz
  exact hlast a ha (y :: g) rfl s hs z (by simpa using hz)

/-- Closing the last group where its summary refuses the next element. -/
lemma isChain_cut_close {groups : List (List α)} {g : List α}
    (h : (groups ++ [g]).IsChain (Cut single extend joins)) {s : β}
    (hs : summary single extend g = some s) (x : α) (hx : joins s x = false) :
    (groups ++ [g] ++ [[x]]).IsChain (Cut single extend joins) := by
  refine h.append (List.isChain_singleton _) fun a ha b hb => ?_
  simp only [List.getLast?_append, List.getLast?_singleton, Option.some_or, List.head?_cons,
    Option.mem_def, Option.some.injEq] at ha hb
  subst ha hb
  intro s' hs' z hz
  rw [hs, Option.mem_def, Option.some.injEq] at hs'
  simp only [List.head?_cons, Option.mem_def, Option.some.injEq] at hz
  exact hs' ▸ hz ▸ hx

variable (single extend joins) in
/-- The walk over a non-empty list: the closed groups' summaries and the summary of the last
group, for a cut of the list into groups.  The induction adds one element at the end. -/
lemma foldl_step (l : List α) (hne : l ≠ []) :
    ∃ groups g, Grouped single extend joins l (groups ++ [g]) ∧
      l.foldl (step single extend joins) ([], none) =
        (groups.filterMap (summary single extend), summary single extend g) := by
  induction l using List.reverseRecOn with
  | nil => exact absurd rfl hne
  | append_singleton l x ih =>
    by_cases hne' : l = []
    · subst hne'
      exact ⟨[], [x], ⟨by simp, by simp, List.isChain_singleton _⟩, rfl⟩
    obtain ⟨groups, g, ⟨hflat, hnil, hcuts⟩, hfold⟩ := ih hne'
    have hg : g ≠ [] := hnil g (List.mem_append_right _ List.mem_cons_self)
    obtain ⟨s, hs⟩ := exists_summary_eq single extend hg
    rw [List.foldl_append, hfold, List.foldl_cons, List.foldl_nil, hs]
    cases hx : joins s x with
    | true =>
      -- `x` joins the last group
      refine ⟨groups, g ++ [x], ⟨by simp [← hflat], fun h hh => ?_,
        isChain_cut_extend hcuts hg x⟩, ?_⟩
      · rcases List.mem_append.mp hh with hh | hh
        · exact hnil h (List.mem_append_left _ hh)
        · simp [List.mem_singleton.mp hh]
      · simp [step, hx, summary_append_singleton hs]
    | false =>
      -- the last group is closed and `x` starts the next one
      refine ⟨groups ++ [g], [x], ⟨by simp [← hflat], fun h hh => ?_,
        isChain_cut_close hcuts hs x hx⟩, ?_⟩
      · rcases List.mem_append.mp hh with hh | hh
        · exact hnil h hh
        · simp [List.mem_singleton.mp hh]
      · simp [step, hx, List.filterMap_append, hs]

variable (single extend joins) in
/-- The walk cuts the list into groups with a cut between neighbours, and gives their
summaries in order. -/
theorem run_spec (l : List α) :
    ∃ groups, Grouped single extend joins l groups ∧
      run single extend joins l = groups.filterMap (summary single extend) := by
  by_cases hne : l = []
  · subst hne
    exact ⟨[], ⟨rfl, by simp, List.IsChain.nil⟩, rfl⟩
  obtain ⟨groups, g, hgrouped, hfold⟩ := foldl_step single extend joins l hne
  have hg : g ≠ [] := hgrouped.ne_nil g (List.mem_append_right _ List.mem_cons_self)
  obtain ⟨s, hs⟩ := exists_summary_eq single extend hg
  refine ⟨groups ++ [g], hgrouped, ?_⟩
  simp [run, hfold, hs, List.filterMap_append]

/-- A relation between neighbours is one between any two elements when it carries over what
`S` relates after it: the step from the cuts between neighbouring groups to all later groups. -/
lemma pairwise_of_isChain {γ : Type} {R S T : γ → γ → Prop} :
    ∀ {l : List γ}, l.IsChain T → l.Pairwise S →
      (∀ a b, a ∈ l → b ∈ l → T a b → S a b → R a b) →
      (∀ a b c, b ∈ l → R a b → S b c → R a c) → l.Pairwise R
  | [], _, _, _, _ => List.Pairwise.nil
  | [a], _, _, _, _ => List.pairwise_singleton _ a
  | a :: b :: l, hchain, hS, hTR, hRS => by
    obtain ⟨hab, hchain'⟩ := List.isChain_cons_cons.mp hchain
    obtain ⟨hSa, hS'⟩ := List.pairwise_cons.mp hS
    have hRab : R a b := hTR a b List.mem_cons_self (List.mem_cons_of_mem _ List.mem_cons_self) hab
      (hSa b List.mem_cons_self)
    have htail : (b :: l).Pairwise R :=
      pairwise_of_isChain hchain' hS'
        (fun x y hx hy => hTR x y (List.mem_cons_of_mem _ hx) (List.mem_cons_of_mem _ hy))
        (fun x y z hy => hRS x y z (List.mem_cons_of_mem _ hy))
    refine List.pairwise_cons.mpr ⟨fun c hc => ?_, htail⟩
    rcases List.mem_cons.mp hc with rfl | hc
    · exact hRab
    · exact hRS a b c (List.mem_cons_of_mem _ List.mem_cons_self) hRab
        (List.rel_of_pairwise_cons hS' hc)

/-! ## Cutting where a key changes -/

section ChunkBy

variable {γ : Type} [DecidableEq γ] (key : α → γ)

/-- One element of `Itertools::chunk_by`: it joins the last piece when it has its key, and
starts a piece otherwise. -/
def chunkStep (acc : List (γ × List α)) (a : α) : List (γ × List α) :=
  match acc.getLast? with
  | some (k, g) => if k = key a then acc.dropLast ++ [(k, g ++ [a])] else acc ++ [(key a, [a])]
  | none => [(key a, [a])]

/-- `Itertools::chunk_by`: the list cut where the key changes, each piece with its key. -/
def chunkBy (l : List α) : List (γ × List α) := l.foldl (chunkStep key) []

variable {key}

lemma chunkBy_append_singleton (l : List α) (a : α) :
    chunkBy key (l ++ [a]) = chunkStep key (chunkBy key l) a := by
  rw [chunkBy, List.foldl_append, List.foldl_cons, List.foldl_nil]
  rfl

variable (key) in
/-- The two ways a piece can end the cut after one more element. -/
lemma chunkStep_cases (acc : List (γ × List α)) (a : α) :
    (∃ pre g, acc = pre ++ [(key a, g)] ∧ chunkStep key acc a = pre ++ [(key a, g ++ [a])]) ∨
      ((∀ c ∈ acc.getLast?, c.1 ≠ key a) ∧ chunkStep key acc a = acc ++ [(key a, [a])]) := by
  unfold chunkStep
  split
  · rename_i k g hlast
    have hacc := (List.dropLast_append_getLast? _ hlast).symm
    split
    · rename_i hk
      subst hk
      exact .inl ⟨acc.dropLast, g, hacc, rfl⟩
    · rename_i hk
      exact .inr ⟨by simpa [hlast] using hk, rfl⟩
  · rename_i hnone
    rw [List.getLast?_eq_none_iff] at hnone
    subst hnone
    exact .inr ⟨by simp, rfl⟩

/-- The pieces hold the list in order. -/
lemma flatten_chunkBy (l : List α) : ((chunkBy key l).map Prod.snd).flatten = l := by
  induction l using List.reverseRecOn with
  | nil => rfl
  | append_singleton l a ih =>
    rw [chunkBy_append_singleton]
    rcases chunkStep_cases key (chunkBy key l) a with ⟨pre, g, hacc, hstep⟩ | ⟨-, hstep⟩
    · rw [hacc] at ih
      rw [hstep, ← ih]
      simp
    · rw [hstep, List.map_append, List.flatten_append, ih]
      simp

/-- Each piece is non-empty and all of its elements have its key. -/
lemma mem_chunkBy {l : List α} {c : γ × List α} (hc : c ∈ chunkBy key l) :
    c.2 ≠ [] ∧ ∀ a ∈ c.2, key a = c.1 := by
  induction l using List.reverseRecOn generalizing c with
  | nil => cases hc
  | append_singleton l a ih =>
    rw [chunkBy_append_singleton] at hc
    rcases chunkStep_cases key (chunkBy key l) a with ⟨pre, g, hacc, hstep⟩ | ⟨-, hstep⟩
    · rw [hstep] at hc
      rcases List.mem_append.mp hc with hc | hc
      · exact ih (hacc ▸ List.mem_append_left _ hc)
      · rw [List.mem_singleton] at hc
        subst hc
        have hlast := ih (hacc ▸ List.mem_append_right _ List.mem_cons_self)
        refine ⟨by simp, fun b hb => ?_⟩
        rcases List.mem_append.mp hb with hb | hb
        · exact hlast.2 b hb
        · rw [List.mem_singleton.mp hb]
    · rw [hstep] at hc
      rcases List.mem_append.mp hc with hc | hc
      · exact ih hc
      · rw [List.mem_singleton] at hc
        subst hc
        exact ⟨by simp, fun b hb => by rw [List.mem_singleton.mp hb]⟩

/-- Each piece has the key of one of the elements. -/
lemma exists_mem_of_mem_chunkBy {l : List α} {c : γ × List α} (hc : c ∈ chunkBy key l) :
    ∃ a ∈ l, key a = c.1 := by
  obtain ⟨hne, hkey⟩ := mem_chunkBy hc
  obtain ⟨a, ha⟩ := List.exists_mem_of_ne_nil c.2 hne
  have hflat : ((chunkBy key l).map Prod.snd).flatten = l := flatten_chunkBy l
  refine ⟨a, ?_, hkey a ha⟩
  rw [← hflat]
  exact List.mem_flatten.mpr ⟨c.2, List.mem_map_of_mem hc, ha⟩

/-- Each piece is a run of the list. -/
lemma sublist_of_mem_chunkBy {l : List α} {c : γ × List α} (hc : c ∈ chunkBy key l) :
    c.2.Sublist l := by
  have hflat : ((chunkBy key l).map Prod.snd).flatten = l := flatten_chunkBy l
  rw [← hflat]
  exact List.sublist_flatten_of_mem (List.mem_map_of_mem hc)

/-- An element lies in a piece of its key. -/
lemma exists_mem_chunkBy_iff {l : List α} {P : α → Prop} {k : γ} :
    (∃ c ∈ chunkBy key l, c.1 = k ∧ ∃ a ∈ c.2, P a) ↔ ∃ a ∈ l, key a = k ∧ P a := by
  constructor
  · rintro ⟨c, hc, rfl, a, ha, hp⟩
    exact ⟨a, (sublist_of_mem_chunkBy hc).subset ha, (mem_chunkBy hc).2 a ha, hp⟩
  · rintro ⟨a, ha, rfl, hp⟩
    have hflat : ((chunkBy key l).map Prod.snd).flatten = l := flatten_chunkBy l
    rw [← hflat, List.mem_flatten] at ha
    obtain ⟨_, hg, ha⟩ := ha
    obtain ⟨c, hc, rfl⟩ := List.mem_map.mp hg
    exact ⟨c, hc, ((mem_chunkBy hc).2 a ha).symm, a, ha, hp⟩

/-- Over keys that never decrease, the keys of the pieces strictly increase. -/
lemma pairwise_chunkBy [LinearOrder γ] {l : List α} (h : l.Pairwise fun a b => key a ≤ key b) :
    (chunkBy key l).Pairwise fun c c' => c.1 < c'.1 := by
  induction l using List.reverseRecOn with
  | nil => exact List.Pairwise.nil
  | append_singleton l a ih =>
    have hl := List.Pairwise.sublist (List.sublist_append_left l [a]) h
    -- every piece so far has the key of an element before `a`
    have hle : ∀ c ∈ chunkBy key l, c.1 ≤ key a := by
      intro c hc
      obtain ⟨b, hb, hbc⟩ := exists_mem_of_mem_chunkBy hc
      exact hbc ▸ (List.pairwise_append.mp h).2.2 b hb a (List.mem_singleton_self _)
    rw [chunkBy_append_singleton]
    rcases chunkStep_cases key (chunkBy key l) a with ⟨pre, g, hacc, hstep⟩ | ⟨hne, hstep⟩
    · have ih := ih hl
      rw [hacc, List.pairwise_append] at ih
      rw [hstep, List.pairwise_append]
      exact ⟨ih.1, List.pairwise_singleton _ _, fun x hx y hy => by
        rw [List.mem_singleton.mp hy]
        exact ih.2.2 x hx (key a, g) (List.mem_singleton_self _)⟩
    · rw [hstep, List.pairwise_append]
      refine ⟨ih hl, List.pairwise_singleton _ _, fun x hx y hy => ?_⟩
      rw [List.mem_singleton.mp hy]
      refine lt_of_le_of_ne (hle x hx) fun hxa => ?_
      -- the last piece has another key, and the others come before it
      obtain ⟨pre, last, hsplit⟩ : ∃ pre last, chunkBy key l = pre ++ [last] :=
        ⟨_, _, (List.dropLast_append_getLast (List.ne_nil_of_mem hx)).symm⟩
      have hlast_ne : last.1 ≠ key a := hne last (by simp [hsplit])
      have hlast_le : last.1 ≤ key a := hle last (by simp [hsplit])
      have ih := ih hl
      rw [hsplit] at ih hx
      rcases List.mem_append.mp hx with hx | hx
      · have hlt : x.1 < last.1 := (List.pairwise_append.mp ih).2.2 x hx last
          (List.mem_singleton_self _)
        exact absurd (hxa ▸ lt_of_lt_of_le hlt hlast_le) (lt_irrefl _)
      · exact hlast_ne (List.mem_singleton.mp hx ▸ hxa)

end ChunkBy

/-! ## Cutting at the offsets where a key changes

A columnar reader cuts its rows where the key changes without walking them one by one: it
computes the offsets of the changes first (`changeOffsets`: `0`, each index whose key differs
from the key before it, and the length), then slices every column between consecutive offsets
(`slices`).  The pieces are the maximal runs of one key, `List.splitBy`
(`slices_changeOffsets`). -/

section Offsets

variable {γ : Type} [DecidableEq γ]

/-- The indices whose key differs from the key after them. -/
def changes (keys : List γ) : List ℕ :=
  (List.range (keys.length - 1)).filter fun i => keys[i]? != keys[i + 1]?

/-- The offsets where a list of keys changes: none for no key; otherwise `0`, then `i + 1` for
each index `i` whose key differs from the next, then the length. -/
def changeOffsets (keys : List γ) : List ℕ :=
  if keys = [] then [] else 0 :: ((changes keys).map (· + 1) ++ [keys.length])

/-- The consecutive pairs of a list of offsets: where each piece starts and ends. -/
def offsetPairs (offsets : List ℕ) : List (ℕ × ℕ) := offsets.zip offsets.tail

/-- The pieces of a list between consecutive offsets. -/
def slices (l : List α) (offsets : List ℕ) : List (List α) :=
  (offsetPairs offsets).map fun p => (l.drop p.1).take (p.2 - p.1)

@[simp] lemma changeOffsets_nil : changeOffsets ([] : List γ) = [] := rfl

lemma changeOffsets_cons (k : γ) (keys : List γ) :
    changeOffsets (k :: keys) = 0 :: ((changes (k :: keys)).map (· + 1) ++ [keys.length + 1]) := by
  simp [changeOffsets]

lemma changes_cons_cons (k k' : γ) (keys : List γ) :
    changes (k :: k' :: keys) =
      (if k = k' then [] else [0]) ++ (changes (k' :: keys)).map (· + 1) := by
  simp only [changes, List.length_cons, Nat.add_sub_cancel]
  rw [List.range_succ_eq_map, List.filter_cons, List.filter_map]
  by_cases hk : k = k' <;> simp [hk, Function.comp_def]

/-- The offsets of a list of keys with one more key before it: its first piece grows by one
element when the new key is the first one's, and is a piece of its own otherwise. -/
lemma changeOffsets_cons_cons (k k' : γ) (keys : List γ) :
    changeOffsets (k :: k' :: keys) =
      if k = k' then 0 :: (changeOffsets (k' :: keys)).tail.map (· + 1)
      else 0 :: (changeOffsets (k' :: keys)).map (· + 1) := by
  rw [changeOffsets_cons, changeOffsets_cons, changes_cons_cons]
  by_cases hk : k = k' <;> simp [hk, Function.comp_def]

lemma exists_changeOffsets_cons (k : γ) (keys : List γ) :
    ∃ e offsets, changeOffsets (k :: keys) = 0 :: e :: offsets := by
  rw [changeOffsets_cons]
  obtain ⟨e, offsets, h⟩ := List.exists_cons_of_ne_nil
    (List.append_ne_nil_of_right_ne_nil ((changes (k :: keys)).map (· + 1))
      (List.cons_ne_nil (keys.length + 1) []))
  exact ⟨e, offsets, by rw [h]⟩

end Offsets

@[simp] lemma slices_nil (l : List α) : slices l [] = [] := rfl

@[simp] lemma slices_singleton (l : List α) (s : ℕ) : slices l [s] = [] := rfl

lemma slices_cons_cons (l : List α) (s e : ℕ) (offsets : List ℕ) :
    slices l (s :: e :: offsets) = (l.drop s).take (e - s) :: slices l (e :: offsets) := rfl

/-- Shifting every offset by one slices the list behind one more element the same way. -/
lemma slices_cons_map_succ (a : α) (l : List α) (offsets : List ℕ) :
    slices (a :: l) (offsets.map (· + 1)) = slices l offsets := by
  simp [slices, offsetPairs, ← List.map_tail, List.zip_map, Function.comp_def]

/-- A piece `[a]` in front of offsets that start at `0`, shifted by one. -/
lemma slices_zero_cons_map_succ (a : α) (l : List α) (rest : List ℕ) :
    slices (a :: l) (0 :: (0 :: rest).map (· + 1)) = [a] :: slices l (0 :: rest) := by
  have hshift := slices_cons_map_succ a l (0 :: rest)
  rw [List.map_cons] at hshift ⊢
  rw [slices_cons_cons, hshift]
  rfl

section SplitBy

variable {r : α → α → Bool}

/-- An element that does not join the first element of a list is a run of its own. -/
lemma splitBy_cons_of_not (a : α) {l : List α} (h : ∀ b ∈ l.head?, r a b = false) :
    (a :: l).splitBy r = [a] :: l.splitBy r := by
  rw [← List.singleton_append, List.splitBy_append (by simpa using h),
    List.splitBy_of_isChain (List.cons_ne_nil a []) (List.isChain_singleton a)]
  rfl

/-- An element that joins the first element of a list joins its first run. -/
lemma splitBy_cons_of_rel (a : α) {l g : List α} {rest : List (List α)}
    (hl : l.splitBy r = g :: rest) (h : ∀ b ∈ l.head?, r a b = true) :
    (a :: l).splitBy r = (a :: g) :: rest := by
  have hg : g ≠ [] := List.ne_nil_of_mem_splitBy (hl ▸ List.mem_cons_self)
  have hflat : l = g ++ rest.flatten := by rw [← List.flatten_splitBy r l, hl, List.flatten_cons]
  have hchain : (g :: rest).IsChain fun x y => ∃ hx hy, r (x.getLast hx) (y.head hy) = false :=
    hl ▸ List.isChain_getLast_head_splitBy r l
  rw [List.splitBy_eq_iff]
  refine ⟨by simp [hflat], ?_, ?_, ?_⟩
  · have hnil := List.nil_notMem_splitBy r l
    rw [hl] at hnil
    simp only [List.mem_cons, not_or] at hnil ⊢
    exact ⟨(List.cons_ne_nil a g).symm, hnil.2⟩
  · intro m hm
    rcases List.mem_cons.mp hm with rfl | hm
    · -- `a` joins the head of `g`, which is the head of `l`
      refine List.IsChain.cons (List.isChain_of_mem_splitBy (hl ▸ List.mem_cons_self)) ?_
      intro b hb
      exact h b (by rw [hflat, List.head?_append_of_ne_nil _ hg]; exact hb)
    · exact List.isChain_of_mem_splitBy (hl ▸ List.mem_cons_of_mem g hm)
  · cases rest with
    | nil => exact List.isChain_singleton _
    | cons g' rest =>
      rw [List.isChain_cons_cons] at hchain ⊢
      obtain ⟨⟨_, hy, hlast⟩, htail⟩ := hchain
      exact ⟨⟨List.cons_ne_nil a g, hy, by rwa [List.getLast_cons hg]⟩, htail⟩

/-- In a chain of equal keys every element has the key of the first. -/
lemma key_eq_of_isChain {γ : Type} [DecidableEq γ] (key : α → γ) :
    ∀ {a : α} {l : List α}, (a :: l).IsChain (fun x y => key x == key y) →
      ∀ x ∈ a :: l, key x = key a
  | a, [], _, x, hx => by rw [List.mem_singleton.mp hx]
  | a, b :: l, h, x, hx => by
    rw [List.isChain_cons_cons] at h
    have hab : key a = key b := by simpa using h.1
    rcases List.mem_cons.mp hx with rfl | hx
    · rfl
    · rw [key_eq_of_isChain key h.2 x hx, hab]

end SplitBy

/-- Slicing at the offsets where the key changes cuts a list into its maximal runs of one key. -/
theorem slices_changeOffsets {γ : Type} [DecidableEq γ] (key : α → γ) (l : List α) :
    slices l (changeOffsets (l.map key)) = l.splitBy fun a b => key a == key b := by
  induction l with
  | nil => rfl
  | cons a l ih =>
    cases l with
    | nil => rfl
    | cons b m =>
      obtain ⟨e, offsets, hoff⟩ := exists_changeOffsets_cons (key b) (m.map key)
      rw [List.map_cons, hoff] at ih
      rw [List.map_cons, List.map_cons, changeOffsets_cons_cons, hoff]
      by_cases hab : key a = key b
      · -- `a` joins the first run of `b :: m`; its other runs are seen behind `a`
        have hshift := slices_cons_map_succ a (b :: m) (e :: offsets)
        rw [List.map_cons] at hshift
        rw [slices_cons_cons] at ih
        rw [if_pos hab, List.tail_cons, List.map_cons, slices_cons_cons, hshift,
          splitBy_cons_of_rel a ih.symm (by simp [hab])]
        simp
      · -- `a` is a run of its own, and the runs of `b :: m` are seen behind it
        rw [if_neg hab, slices_zero_cons_map_succ, ih, splitBy_cons_of_not a (by simp [hab])]

end Grouping

end Greptime
