import Mathlib.Data.List.Sort

/-!
# Directories of versioned files and the replay of a log

A store that persists a log writes one file per version; a reader lists the directory, keeps
the versions of a range and replays them in version order.  Here a directory is a list of
(key, content) pairs in the order the files were written, and a writer replaces the file a
key already holds.

When the files of a log are exactly those of a run of consecutive versions (a `segment`),
listing a range gives the segment of the overlap (`scan_segment`), deleting a prefix gives a
shorter segment (`filter_segment_lt`), and replaying two adjacent segments is replaying their
union (`replay_segment_add`): a checkpoint of the replay up to one version, followed by the
files after it, is the replay of the whole log.

Nothing here names a program.
-/

namespace Greptime

variable {κ α σ : Type*}

namespace KeyedFiles

/-- Writes `a` under key `k`, replacing the file the key held. -/
def write [DecidableEq κ] (files : List (κ × α)) (k : κ) (a : α) : List (κ × α) :=
  files.filter (fun e => e.1 ≠ k) ++ [(k, a)]

/-- Removes the file of key `k`. -/
def erase [DecidableEq κ] (files : List (κ × α)) (k : κ) : List (κ × α) :=
  files.filter (fun e => e.1 ≠ k)

lemma write_of_forall_ne [DecidableEq κ] {files : List (κ × α)} {k : κ} (a : α)
    (h : ∀ e ∈ files, e.1 ≠ k) : write files k a = files ++ [(k, a)] := by
  rw [write, List.filter_eq_self.mpr]
  intro e he
  simpa using h e he

lemma mem_write [DecidableEq κ] {files : List (κ × α)} {k : κ} {a : α} {e : κ × α} :
    e ∈ write files k a ↔ (e ∈ files ∧ e.1 ≠ k) ∨ e = (k, a) := by
  simp [write]

lemma mem_keys_write [DecidableEq κ] {files : List (κ × α)} {k k' : κ} {a : α} :
    k' ∈ (write files k a).map Prod.fst ↔ k' ∈ files.map Prod.fst ∨ k' = k := by
  simp only [List.mem_map, mem_write]
  constructor
  · rintro ⟨e, he | rfl, rfl⟩
    · exact .inl ⟨e, he.1, rfl⟩
    · exact .inr rfl
  · rintro (⟨e, he, rfl⟩ | hk)
    · by_cases hk : e.1 = k
      · exact ⟨(k, a), .inr rfl, hk.symm⟩
      · exact ⟨e, .inl ⟨he, hk⟩, rfl⟩
    · exact ⟨(k, a), .inr rfl, hk.symm⟩

lemma mem_keys_erase [DecidableEq κ] {files : List (κ × α)} {k k' : κ} :
    k' ∈ (erase files k).map Prod.fst ↔ k' ∈ files.map Prod.fst ∧ k' ≠ k := by
  simp only [erase, List.mem_map, List.mem_filter, decide_eq_true_eq]
  constructor
  · rintro ⟨e, ⟨he, hk⟩, rfl⟩
    exact ⟨⟨e, he, rfl⟩, hk⟩
  · rintro ⟨⟨e, he, rfl⟩, hk⟩
    exact ⟨e, ⟨he, hk⟩, rfl⟩

/-- Erasing keys one after the other leaves exactly the other keys. -/
lemma mem_keys_foldl_erase [DecidableEq κ] {k' : κ} :
    ∀ (keys : List κ) (files : List (κ × α)),
      k' ∈ (keys.foldl erase files).map Prod.fst ↔ k' ∈ files.map Prod.fst ∧ k' ∉ keys
  | [], files => by simp
  | k :: keys, files => by
    rw [List.foldl_cons, mem_keys_foldl_erase keys, mem_keys_erase, List.mem_cons, not_or,
      and_assoc]

/-- Writing files one after the other keeps every key there was. -/
lemma mem_keys_foldl_write [DecidableEq κ] {k' : κ} :
    ∀ (added : List (κ × α)) {files : List (κ × α)}, k' ∈ files.map Prod.fst →
      k' ∈ (added.foldl (fun files f => write files f.1 f.2) files).map Prod.fst
  | [], _, h => h
  | f :: added, _, h => by
    rw [List.foldl_cons]
    exact mem_keys_foldl_write added (mem_keys_write.mpr (.inl h))

end KeyedFiles

namespace VersionedFiles

/-- The files of the versions in `[start, stop)`, sorted by version. -/
def scan (files : List (ℕ × α)) (start stop : ℕ) : List (ℕ × α) :=
  (files.filter fun e => start ≤ e.1 ∧ e.1 < stop).insertionSort (fun a b => a.1 ≤ b.1)

/-- The files of `log` for the consecutive versions `[lo, lo + n)`. -/
def segment (log : ℕ → α) (lo n : ℕ) : List (ℕ × α) :=
  (List.range' lo n).map fun v => (v, log v)

/-- Replays files in the order given, each with its version. -/
def replay (apply : σ → ℕ → α → σ) (s : σ) (files : List (ℕ × α)) : σ :=
  files.foldl (fun s e => apply s e.1 e.2) s

variable (log : ℕ → α)

@[simp] lemma segment_zero (lo : ℕ) : segment log lo 0 = [] := rfl

@[simp] lemma segment_eq_nil_iff {lo n : ℕ} : segment log lo n = [] ↔ n = 0 := by
  simp [segment]

lemma mem_segment {lo n : ℕ} {e : ℕ × α} :
    e ∈ segment log lo n ↔ lo ≤ e.1 ∧ e.1 < lo + n ∧ e.2 = log e.1 := by
  obtain ⟨v, a⟩ := e
  simp only [segment, List.mem_map, List.mem_range'_1, Prod.mk.injEq]
  constructor
  · rintro ⟨w, ⟨h1, h2⟩, rfl, rfl⟩
    exact ⟨h1, h2, rfl⟩
  · rintro ⟨h1, h2, rfl⟩
    exact ⟨v, ⟨h1, h2⟩, rfl, rfl⟩

/-- A segment only reads the log at its versions. -/
lemma segment_congr {log' : ℕ → α} {lo n : ℕ} (h : ∀ v, lo ≤ v → v < lo + n → log v = log' v) :
    segment log lo n = segment log' lo n := by
  refine List.map_congr_left fun v hv => ?_
  rw [List.mem_range'_1] at hv
  rw [h v hv.1 hv.2]

lemma segment_add (lo m n : ℕ) :
    segment log lo (m + n) = segment log lo m ++ segment log (lo + m) n := by
  rw [segment, segment, segment, ← List.map_append, List.range'_append_1]

lemma segment_succ (lo n : ℕ) :
    segment log lo (n + 1) = segment log lo n ++ [(lo + n, log (lo + n))] := by
  rw [segment_add]
  rfl

lemma segment_pairwise_lt (lo n : ℕ) : (segment log lo n).Pairwise (fun a b => a.1 < b.1) := by
  simpa [segment, List.pairwise_map] using List.pairwise_lt_range' (s := lo) (n := n)

lemma fst_lt_of_mem_segment {lo n : ℕ} {e : ℕ × α} (h : e ∈ segment log lo n) : e.1 < lo + n :=
  ((mem_segment log).mp h).2.1

/-- Writing the file of the next version extends the segment. -/
lemma write_segment (lo n : ℕ) :
    KeyedFiles.write (segment log lo n) (lo + n) (log (lo + n)) = segment log lo (n + 1) := by
  rw [KeyedFiles.write_of_forall_ne, segment_succ]
  intro e he
  exact (fst_lt_of_mem_segment log he).ne

/-- The file of a version at or below a segment's first version is found first, if at all. -/
lemma findIdx?_segment {lo n s : ℕ} (hs : s ≤ lo) :
    (segment log lo n).findIdx? (fun e => decide (e.1 = s)) =
      if s = lo ∧ 0 < n then some 0 else none := by
  cases n with
  | zero => simp
  | succ n =>
    rw [segment, List.range'_succ, List.map_cons, List.findIdx?_cons]
    by_cases h : lo = s
    · simp [h]
    · have hnone : ((List.range' (lo + 1) n).map fun v => (v, log v)).findIdx?
          (fun e => decide (e.1 = s)) = none := by
        rw [List.findIdx?_eq_none_iff]
        intro e he
        obtain ⟨v, hv, rfl⟩ := List.mem_map.mp he
        rw [List.mem_range'_1] at hv
        simp only [decide_eq_false_iff_not]
        omega
      simp [h, Ne.symm h, hnone]

/-- Keeping the versions of `[a, b)` keeps the segment of the overlap. -/
lemma filter_segment (lo n a b : ℕ) (p : ℕ × α → Bool)
    (hp : ∀ e ∈ segment log lo n, p e = decide (a ≤ e.1 ∧ e.1 < b)) :
    (segment log lo n).filter p = segment log (max lo a) (min (lo + n) b - max lo a) := by
  -- cut the segment into the part below `a`, the overlap and the part from `b` on
  set s := max lo a
  set k := min (lo + n) b - s
  have hsplit : segment log lo n =
      segment log lo (min (s - lo) n) ++ (segment log (lo + min (s - lo) n) k ++
        segment log (lo + min (s - lo) n + k) (n - min (s - lo) n - k)) := by
    rw [← segment_add, ← segment_add]
    congr 1
    omega
  have hlo : lo + min (s - lo) n = s ∨ k = 0 := by omega
  rw [List.filter_congr hp, hsplit, List.filter_append, List.filter_append]
  have hbelow : (segment log lo (min (s - lo) n)).filter
      (fun e => decide (a ≤ e.1 ∧ e.1 < b)) = [] := by
    refine List.filter_eq_nil_iff.mpr fun e he => ?_
    have := (mem_segment log).mp he
    simp only [decide_eq_true_eq, not_and, not_lt]
    omega
  have hmid : (segment log (lo + min (s - lo) n) k).filter
      (fun e => decide (a ≤ e.1 ∧ e.1 < b)) = segment log (lo + min (s - lo) n) k := by
    refine List.filter_eq_self.mpr fun e he => ?_
    have := (mem_segment log).mp he
    simp only [decide_eq_true_eq]
    omega
  have habove : (segment log (lo + min (s - lo) n + k) (n - min (s - lo) n - k)).filter
      (fun e => decide (a ≤ e.1 ∧ e.1 < b)) = [] := by
    refine List.filter_eq_nil_iff.mpr fun e he => ?_
    have := (mem_segment log).mp he
    simp only [decide_eq_true_eq, not_and, not_lt]
    omega
  rw [hbelow, hmid, habove, List.nil_append, List.append_nil]
  rcases hlo with h | h
  · rw [h]
  · simp [h]

/-- Listing a range of a segment gives the segment of the overlap, in order. -/
lemma scan_segment (lo n start stop : ℕ) :
    scan (segment log lo n) start stop =
      segment log (max lo start) (min (lo + n) stop - max lo start) := by
  unfold scan
  rw [filter_segment log lo n start stop _ (fun e _ => rfl)]
  refine List.Pairwise.insertionSort_eq ?_
  exact (segment_pairwise_lt log _ _).imp le_of_lt

/-- Deleting the versions up to `m` leaves the segment above it. -/
lemma filter_segment_lt (lo n m : ℕ) :
    (segment log lo n).filter (fun e => decide (m < e.1)) =
      segment log (max lo (m + 1)) (lo + n - max lo (m + 1)) := by
  rw [filter_segment log lo n (m + 1) (lo + n)]
  · congr 1
    omega
  · intro e he
    have := fst_lt_of_mem_segment log he
    simp only [decide_eq_decide]
    omega

variable (apply : σ → ℕ → α → σ)

@[simp] lemma replay_nil (s : σ) : replay apply s [] = s := rfl

lemma replay_append (s : σ) (l₁ l₂ : List (ℕ × α)) :
    replay apply s (l₁ ++ l₂) = replay apply (replay apply s l₁) l₂ :=
  List.foldl_append

/-- Replaying a segment in two parts: the state after the first part is a checkpoint from
which the second part finishes the replay. -/
lemma replay_segment_add (s : σ) (lo m n : ℕ) :
    replay apply s (segment log lo (m + n)) =
      replay apply (replay apply s (segment log lo m)) (segment log (lo + m) n) := by
  rw [segment_add, replay_append]

lemma replay_segment_succ (s : σ) (lo n : ℕ) :
    replay apply s (segment log lo (n + 1)) =
      apply (replay apply s (segment log lo n)) (lo + n) (log (lo + n)) := by
  rw [segment_succ, replay_append]
  rfl

end VersionedFiles

end Greptime
