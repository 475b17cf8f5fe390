import Greptime.Foundations.Rounding
import Mathlib.Tactic.Ring

/-!
# The ranges of `RangeManipulate`

`RangeManipulateStream` turns a batch of one series into the input of PromQL's range functions:
for each evaluation timestamp `t` of `start, start + interval, …, end` it records the
`(offset, length)` of the samples of the batch in `[t - range, t]`, and its output has a row per
evaluation timestamp, with the time index and the ranges of the field columns.

`calculate_range` first narrows `[start, end]` to the timestamps that can see the batch, with
the first and the last sample rounded to a multiple of `interval`, and then slides a cursor
over the sorted samples: it starts where the last range started, moved by how far that range
moved from the one before, searches back, and scans forward.

What holds for every sorted batch:
* every range lies inside the batch (`evaluate_inBatch`), so `manipulate` never fails, and its
  time index has a row per range (`manipulate_ok`);
* a range recorded for a timestamp at or after the first sample holds only samples of its
  window (`evaluate_sound`), and the range of a scan that starts inside the batch holds all of
  them (`evaluate_exact`);
* when `start` is a multiple of `interval`, the time index is the timestamps evaluated, all of
  them on the grid of `start` and `interval`, and they include every timestamp of the grid whose
  window holds a sample (`manipulate_timeIndex_of_dvd`).

What does not: a scan that starts at the first sample with a timestamp before it records that
sample, since `range_end` starts at `0` (`manipulate_beforeFirstSample`), and the cursor can
start past the end of the batch, which records nothing for a window with samples.
-/

namespace Greptime

namespace RangeManipulate

/-! ## The model -/

/-- `usize` addition in a release build: modulo `2 ^ 64`. -/
def usizeAdd (a b : ℕ) : ℕ := (a + b) % 2 ^ 64

/-- `usize` subtraction in a release build: modulo `2 ^ 64`. -/
def usizeSub (a b : ℕ) : ℕ := (a + 2 ^ 64 - b) % 2 ^ 64

/-- `(start..=end).step_by(interval as usize)`, for a positive `interval`. -/
def stepBy (start «end» interval : ℤ) : List ℤ :=
  if start ≤ «end» then
    (List.range ((«end» - start).toNat / interval.toNat + 1)).map fun k : ℕ => start + k * interval
  else []

/-- `build_aligned_ts_array`. -/
def buildAlignedTsArray (start «end» interval : ℤ) : List ℤ := stepBy start «end» interval

/-- The search back of `calculate_range`: from `cursor`, back while the sample there is after
`startTs`, but not before the first sample nor from past the end. -/
def searchBack (ts : List ℤ) (startTs : ℤ) : ℕ → ℕ
  | 0 => 0
  | cursor + 1 =>
    if h : cursor + 1 < ts.length then
      if startTs < ts[cursor + 1] then searchBack ts startTs cursor else cursor + 1
    else cursor + 1

/-- What the forward scan of one timestamp has found. -/
structure Scan where
  rangeStart : ℕ
  rangeEnd : ℕ
  rangeStartIndex : ℕ

/-- The forward scan of `calculate_range` over the samples from `cursor` on: the first sample at
or after `startTs` starts the range, every sample at or before `currTs` may end it, and the first
sample after `currTs` stops the scan, one step back for the next start. -/
def scanForward (startTs currTs : ℤ) : List ℤ → ℕ → Scan → Scan
  | [], _, s => s
  | ts :: rest, cursor, s =>
    let s := if cursor < s.rangeStart ∧ startTs ≤ ts then
      { s with rangeStart := cursor, rangeStartIndex := cursor } else s
    if ts ≤ currTs then
      scanForward startTs currTs rest (cursor + 1) { s with rangeEnd := max s.rangeEnd cursor }
    else { s with rangeStartIndex := s.rangeStartIndex - 1 }

/-- What `calculate_range` carries from one timestamp to the next. -/
structure Cursor where
  rangeStartIndex : ℕ
  lastRangeStart : ℕ
  startDelta : ℕ

/-- One turn of the loop of `calculate_range`: the range of `currTs`, as `u32`s, and the cursor
for the next timestamp. -/
def evaluate (ts : List ℤ) (range : ℤ) (c : Cursor) (currTs : ℤ) : (ℕ × ℕ) × Cursor :=
  let startTs := currTs - range
  let cursor := searchBack ts startTs (usizeAdd c.rangeStartIndex c.startDelta)
  let s := scanForward startTs currTs (ts.drop cursor) cursor ⟨ts.length, 0, c.rangeStartIndex⟩
  if s.rangeEnd < s.rangeStart then
    ((0, 0), { c with rangeStartIndex := s.rangeStartIndex, startDelta := 0 })
  else
    ((s.rangeStart % 2 ^ 32, (s.rangeEnd + 1 - s.rangeStart) % 2 ^ 32),
      ⟨s.rangeStartIndex, s.rangeStart, usizeSub s.rangeStart c.lastRangeStart⟩)

/-- The loop of `calculate_range` over the timestamps to evaluate. -/
def rangesFrom (ts : List ℤ) (range : ℤ) : Cursor → List ℤ → List (ℕ × ℕ)
  | _, [] => []
  | c, currTs :: rest =>
    let (r, c) := evaluate ts range c currTs
    r :: rangesFrom ts range c rest

/-! ## The search back -/

section Search

variable {ts : List ℤ} {startTs : ℤ}

lemma searchBack_le : ∀ cursor, searchBack ts startTs cursor ≤ cursor
  | 0 => le_rfl
  | cursor + 1 => by
    unfold searchBack
    split_ifs
    · exact (searchBack_le cursor).trans (Nat.le_succ cursor)
    all_goals exact le_rfl

lemma searchBack_of_length_le {cursor : ℕ} (h : ts.length ≤ cursor) :
    searchBack ts startTs cursor = cursor := by
  cases cursor with
  | zero => rfl
  | succ cursor => rw [searchBack, dif_neg (by omega)]

/-- From inside the batch the search stops at the first sample, or at one not after `startTs`. -/
lemma searchBack_stop : ∀ cursor, cursor < ts.length →
    searchBack ts startTs cursor = 0 ∨
      ∃ r, ∃ h : r < ts.length, searchBack ts startTs cursor = r ∧ ts[r] ≤ startTs
  | 0, _ => .inl rfl
  | cursor + 1, hcursor => by
    unfold searchBack
    rw [dif_pos hcursor]
    split_ifs with hafter
    · exact searchBack_stop cursor (by omega)
    · exact .inr ⟨cursor + 1, hcursor, rfl, not_lt.mp hafter⟩

end Search

/-! ## The forward scan -/

section Scan

variable {ts : List ℤ} {startTs currTs : ℤ} {first : ℕ}

/-- The scan from `first` has reached `cursor`: every sample it passed is at or before `currTs`,
those before the range start are before `startTs`, the range starts at a sample it passed at or
after `startTs`, and ends at the last sample it passed or at the initial `0`. -/
structure ScanInv (ts : List ℤ) (startTs currTs : ℤ) (first cursor : ℕ) (s : Scan) : Prop where
  first_le : first ≤ cursor
  passed : ∀ j (h : j < ts.length), first ≤ j → j < cursor → ts[j] ≤ currTs
  before : ∀ j (h : j < ts.length), first ≤ j → j < cursor → j < s.rangeStart → ts[j] < startTs
  start_le : ∀ h : s.rangeStart < ts.length, startTs ≤ ts[s.rangeStart]
  start_lt : s.rangeStart < ts.length → s.rangeStart < cursor
  end_le : s.rangeEnd = 0 ∨ ∃ h : s.rangeEnd < ts.length, ts[s.rangeEnd] ≤ currTs
  end_ge : first < cursor → cursor - 1 ≤ s.rangeEnd

/-- What the scan from `first` finds: a range start at or after `startTs`, a range end at or
before `currTs` or the initial `0`, and, on sorted samples, every sample of the window from
`first` on between the two. -/
structure Found (ts : List ℤ) (startTs currTs : ℤ) (first : ℕ) (s : Scan) : Prop where
  start_le : ∀ h : s.rangeStart < ts.length, startTs ≤ ts[s.rangeStart]
  end_le : s.rangeEnd = 0 ∨ ∃ h : s.rangeEnd < ts.length, ts[s.rangeEnd] ≤ currTs
  complete : ts.Pairwise (· ≤ ·) → ∀ i (h : i < ts.length), first ≤ i → startTs ≤ ts[i] →
    ts[i] ≤ currTs → s.rangeStart ≤ i ∧ i ≤ s.rangeEnd

lemma scanInv_start (ts : List ℤ) (startTs currTs : ℤ) (first rangeStartIndex : ℕ) :
    ScanInv ts startTs currTs first first ⟨ts.length, 0, rangeStartIndex⟩ where
  first_le := le_rfl
  passed _ _ h₁ h₂ := absurd h₂ (not_lt.mpr h₁)
  before _ _ h₁ h₂ := absurd h₂ (not_lt.mpr h₁)
  start_le h := absurd h (lt_irrefl _)
  start_lt h := absurd h (lt_irrefl _)
  end_le := .inl rfl
  end_ge h := absurd h (lt_irrefl _)

namespace ScanInv

variable {cursor : ℕ} {s : Scan}

/-- A sample of the window passed by the scan lies between the range start and end. -/
lemma between (hinv : ScanInv ts startTs currTs first cursor s) {i : ℕ} (hi : i < ts.length)
    (hfirst : first ≤ i) (hcursor : i < cursor) (hstart : startTs ≤ ts[i]) :
    s.rangeStart ≤ i ∧ i ≤ s.rangeEnd := by
  refine ⟨not_lt.mp fun hlt => ?_, ?_⟩
  · exact absurd hstart (not_le.mpr (hinv.before i hi hfirst hcursor hlt))
  · have := hinv.end_ge (by omega)
    omega

/-- A sample at or before `currTs` is passed, and keeps the invariant. -/
lemma visit (hinv : ScanInv ts startTs currTs first cursor s) (hcursor : cursor < ts.length)
    (hcurr : ts[cursor] ≤ currTs) {s' : Scan}
    (hstart : (cursor < s.rangeStart ∧ startTs ≤ ts[cursor] ∧ s'.rangeStart = cursor) ∨
      (¬ (cursor < s.rangeStart ∧ startTs ≤ ts[cursor]) ∧ s'.rangeStart = s.rangeStart))
    (hend : s'.rangeEnd = max s.rangeEnd cursor) :
    ScanInv ts startTs currTs first (cursor + 1) s' where
  first_le := (hinv.first_le).trans (Nat.le_succ _)
  passed j hj h₁ h₂ := by
    rcases Nat.lt_succ_iff_lt_or_eq.mp h₂ with h₂ | rfl
    · exact hinv.passed j hj h₁ h₂
    · exact hcurr
  before j hj h₁ h₂ h₃ := by
    rcases hstart with ⟨hlt, -, hs⟩ | ⟨hset, hs⟩
    · exact hinv.before j hj h₁ (by omega) (by omega)
    · rcases Nat.lt_succ_iff_lt_or_eq.mp h₂ with h₂ | rfl
      · exact hinv.before j hj h₁ h₂ (hs ▸ h₃)
      · exact not_le.mp fun h => hset ⟨hs ▸ h₃, h⟩
  start_le h := by
    rcases hstart with ⟨-, hle, hs⟩ | ⟨-, hs⟩
    · simp only [hs]
      exact hle
    · simp only [hs]
      exact hinv.start_le (hs ▸ h)
  start_lt h := by
    rcases hstart with ⟨-, -, hs⟩ | ⟨-, hs⟩
    · omega
    · have := hinv.start_lt (hs ▸ h)
      omega
  end_le := by
    rw [hend]
    rcases le_total s.rangeEnd cursor with hle | hle
    · rw [max_eq_right hle]
      exact .inr ⟨hcursor, hcurr⟩
    · rw [max_eq_left hle]
      exact hinv.end_le
  end_ge _ := by
    rw [hend]
    omega

/-- The scan stops at the first sample after `currTs`: every sample of the window from `first`
on was passed. -/
lemma found_of_stop (hinv : ScanInv ts startTs currTs first cursor s) (hcursor : cursor < ts.length)
    (hcurr : currTs < ts[cursor]) {s' : Scan}
    (hstart : (cursor < s.rangeStart ∧ startTs ≤ ts[cursor] ∧ s'.rangeStart = cursor) ∨
      (¬ (cursor < s.rangeStart ∧ startTs ≤ ts[cursor]) ∧ s'.rangeStart = s.rangeStart))
    (hend : s'.rangeEnd = s.rangeEnd) :
    Found ts startTs currTs first s' where
  start_le h := by
    rcases hstart with ⟨-, hle, hs⟩ | ⟨-, hs⟩
    · simp only [hs]
      exact hle
    · simp only [hs]
      exact hinv.start_le (hs ▸ h)
  end_le := hend ▸ hinv.end_le
  complete hsorted i hi hfirst hstart' hcurr' := by
    -- a sample at or before `currTs` comes before the one the scan stopped at
    have hlt : i < cursor := by
      by_contra hge
      rcases Nat.lt_or_eq_of_le (not_lt.mp hge) with hlt | rfl
      · have := List.pairwise_iff_getElem.mp hsorted cursor i hcursor hi hlt
        omega
      · omega
    obtain ⟨h₁, h₂⟩ := hinv.between hi hfirst hlt hstart'
    rcases hstart with ⟨hlt', -, -⟩ | ⟨-, hs⟩
    · omega
    · exact ⟨hs ▸ h₁, hend ▸ h₂⟩

/-- The scan ran past the last sample: every sample of the window from `first` on was passed. -/
lemma found_of_end (hinv : ScanInv ts startTs currTs first cursor s) (hcursor : ts.length ≤ cursor) :
    Found ts startTs currTs first s where
  start_le := hinv.start_le
  end_le := hinv.end_le
  complete _ i hi hfirst hstart _ := hinv.between hi hfirst (by omega) hstart

end ScanInv

/-- The forward scan keeps its invariant up to where it stops, and finds what it stops with. -/
theorem scanForward_found : ∀ (rest : List ℤ) (cursor : ℕ) (s : Scan), ts.drop cursor = rest →
    ScanInv ts startTs currTs first cursor s →
      Found ts startTs currTs first (scanForward startTs currTs rest cursor s)
  | [], cursor, s, hrest, hinv => hinv.found_of_end (List.drop_eq_nil_iff.mp hrest)
  | t :: rest, cursor, s, hrest, hinv => by
    have hcursor : cursor < ts.length := by
      by_contra hge
      rw [List.drop_eq_nil_of_le (by omega)] at hrest
      cases hrest
    rw [List.drop_eq_getElem_cons hcursor, List.cons.injEq] at hrest
    obtain ⟨rfl, hrest⟩ := hrest
    unfold scanForward
    split_ifs with hset hcurr hcurr
    · exact scanForward_found rest (cursor + 1) _ hrest
        (hinv.visit hcursor hcurr (.inl ⟨hset.1, hset.2, rfl⟩) rfl)
    · exact hinv.found_of_stop hcursor (not_le.mp hcurr) (.inl ⟨hset.1, hset.2, rfl⟩) rfl
    · exact scanForward_found rest (cursor + 1) _ hrest
        (hinv.visit hcursor hcurr (.inr ⟨hset, rfl⟩) rfl)
    · exact hinv.found_of_stop hcursor (not_le.mp hcurr) (.inr ⟨hset, rfl⟩) rfl

end Scan

/-! ## What a range holds -/

/-- The range `(offset, length)` lies in the batch and holds only samples in `[lo, hi]`. -/
def Within (ts : List ℤ) (r : ℕ × ℕ) (lo hi : ℤ) : Prop :=
  r.1 + r.2 ≤ ts.length ∧
    ∀ i (h : i < ts.length), r.1 ≤ i → i < r.1 + r.2 → lo ≤ ts[i] ∧ ts[i] ≤ hi

/-- The range `(offset, length)` holds exactly the samples in `[lo, hi]`. -/
def Addresses (ts : List ℤ) (r : ℕ × ℕ) (lo hi : ℤ) : Prop :=
  r.1 + r.2 ≤ ts.length ∧
    ∀ i (h : i < ts.length), (r.1 ≤ i ∧ i < r.1 + r.2) ↔ (lo ≤ ts[i] ∧ ts[i] ≤ hi)

section Ranges

variable {ts : List ℤ} {startTs currTs : ℤ} {first : ℕ} {s : Scan}

lemma getElem_mono (hsorted : ts.Pairwise (· ≤ ·)) {i j : ℕ} (hi : i < ts.length)
    (hj : j < ts.length) (hij : i ≤ j) : ts[i] ≤ ts[j] := by
  rcases Nat.lt_or_eq_of_le hij with hlt | rfl
  · exact List.pairwise_iff_getElem.mp hsorted i j hi hj hlt
  · exact le_rfl

lemma within_zero (ts : List ℤ) (lo hi : ℤ) : Within ts (0, 0) lo hi :=
  ⟨Nat.zero_le _, fun _ _ _ h => absurd h (Nat.not_lt_zero _)⟩

namespace Found

lemma rangeEnd_lt (hfound : Found ts startTs currTs first s) (h0 : 0 < ts.length) :
    s.rangeEnd < ts.length := by
  rcases hfound.end_le with h | ⟨h, -⟩
  · omega
  · exact h

/-- A nonempty range as `evaluate` records it: its `u32`s are its bounds, inside the batch. -/
lemma range_eq (hfound : Found ts startTs currTs first s) (h0 : 0 < ts.length)
    (hlen : ts.length < 2 ^ 32) (hle : s.rangeStart ≤ s.rangeEnd) :
    (s.rangeStart % 2 ^ 32, (s.rangeEnd + 1 - s.rangeStart) % 2 ^ 32) =
      (s.rangeStart, s.rangeEnd + 1 - s.rangeStart) := by
  have := hfound.rangeEnd_lt h0
  rw [Nat.mod_eq_of_lt (by omega), Nat.mod_eq_of_lt (by omega)]

/-- A nonempty range found on sorted samples, for a timestamp at or after the first sample,
holds only samples of the window. -/
lemma within (hfound : Found ts startTs currTs first s) (hsorted : ts.Pairwise (· ≤ ·))
    (h0 : 0 < ts.length) (hlen : ts.length < 2 ^ 32) (hfirst : ts[0] ≤ currTs)
    (hle : s.rangeStart ≤ s.rangeEnd) :
    Within ts (s.rangeStart % 2 ^ 32, (s.rangeEnd + 1 - s.rangeStart) % 2 ^ 32) startTs currTs := by
  have hend := hfound.rangeEnd_lt h0
  rw [hfound.range_eq h0 hlen hle]
  refine ⟨by dsimp only; omega, fun i hi h₁ h₂ => ⟨?_, ?_⟩⟩
  · -- after the range start, which is at or after `startTs`
    exact (hfound.start_le (by omega)).trans (getElem_mono hsorted _ hi h₁)
  · -- before the range end, which is at or before `currTs` or the first sample
    have hi' : i ≤ s.rangeEnd := by dsimp only at h₂; omega
    rcases hfound.end_le with h | ⟨h, hcurr⟩
    · have hi0 : i = 0 := by omega
      subst hi0
      exact hfirst
    · exact (getElem_mono hsorted hi h hi').trans hcurr

/-- A range found on strictly increasing samples, from a cursor that every sample of the window
is at or after, holds exactly the samples of the window. -/
lemma addresses (hfound : Found ts startTs currTs first s) (hsorted : ts.Pairwise (· < ·))
    (h0 : 0 < ts.length) (hlen : ts.length < 2 ^ 32) (hfirst : ts[0] ≤ currTs)
    (hwindow : ∀ i (h : i < ts.length), startTs ≤ ts[i] → first ≤ i) :
    Addresses ts (if s.rangeEnd < s.rangeStart then (0, 0) else
      (s.rangeStart % 2 ^ 32, (s.rangeEnd + 1 - s.rangeStart) % 2 ^ 32)) startTs currTs := by
  have hcomplete := hfound.complete (hsorted.imp le_of_lt)
  split_ifs with hempty
  · -- no sample of the window: it would lie between the start and the end
    refine ⟨Nat.zero_le _, fun i hi => ⟨fun h => absurd h.2 (Nat.not_lt_zero _), ?_⟩⟩
    rintro ⟨hstart, hcurr⟩
    obtain ⟨h₁, h₂⟩ := hcomplete i hi (hwindow i hi hstart) hstart hcurr
    omega
  · have hwithin := hfound.within (hsorted.imp le_of_lt) h0 hlen hfirst (not_lt.mp hempty)
    refine ⟨hwithin.1, fun i hi => ⟨fun h => hwithin.2 i hi h.1 h.2, ?_⟩⟩
    rintro ⟨hstart, hcurr⟩
    obtain ⟨h₁, h₂⟩ := hcomplete i hi (hwindow i hi hstart) hstart hcurr
    rw [hfound.range_eq h0 hlen (not_lt.mp hempty)]
    dsimp only
    omega

end Found

end Ranges

/-! ## One timestamp -/

section Evaluate

variable {ts : List ℤ} {range currTs : ℤ}

/-- The scan of one timestamp finds its range from where the search back stops. -/
lemma evaluate_found (ts : List ℤ) (range currTs : ℤ) (cursor rangeStartIndex : ℕ) :
    Found ts (currTs - range) currTs cursor
      (scanForward (currTs - range) currTs (ts.drop cursor) cursor ⟨ts.length, 0, rangeStartIndex⟩) :=
  scanForward_found _ _ _ rfl (scanInv_start ts (currTs - range) currTs cursor rangeStartIndex)

/-- Every range lies inside a batch of fewer than `2 ^ 32` samples. -/
theorem evaluate_inBatch (h0 : 0 < ts.length) (hlen : ts.length < 2 ^ 32) (c : Cursor) :
    (evaluate ts range c currTs).1.1 + (evaluate ts range c currTs).1.2 ≤ ts.length := by
  dsimp only [evaluate]
  generalize searchBack ts (currTs - range) (usizeAdd c.rangeStartIndex c.startDelta) = cursor
  have hfound := evaluate_found ts range currTs cursor c.rangeStartIndex
  generalize scanForward (currTs - range) currTs (ts.drop cursor) cursor
    ⟨ts.length, 0, c.rangeStartIndex⟩ = s at hfound ⊢
  split_ifs with hempty
  · exact Nat.zero_le _
  · have := hfound.rangeEnd_lt h0
    rw [hfound.range_eq h0 hlen (not_lt.mp hempty)]
    dsimp only
    omega

/-- On sorted samples, the range of a timestamp at or after the first sample holds only samples
of its window. -/
theorem evaluate_sound (hsorted : ts.Pairwise (· ≤ ·)) (h0 : 0 < ts.length)
    (hlen : ts.length < 2 ^ 32) (hfirst : ts[0] ≤ currTs) (c : Cursor) :
    Within ts (evaluate ts range c currTs).1 (currTs - range) currTs := by
  dsimp only [evaluate]
  generalize searchBack ts (currTs - range) (usizeAdd c.rangeStartIndex c.startDelta) = cursor
  have hfound := evaluate_found ts range currTs cursor c.rangeStartIndex
  generalize scanForward (currTs - range) currTs (ts.drop cursor) cursor
    ⟨ts.length, 0, c.rangeStartIndex⟩ = s at hfound ⊢
  split_ifs with hempty
  · exact within_zero ts _ _
  · exact hfound.within hsorted h0 hlen hfirst (not_lt.mp hempty)

/-- On strictly increasing samples, the range of a timestamp at or after the first sample whose
scan starts inside the batch holds exactly the samples of its window. -/
theorem evaluate_exact (hsorted : ts.Pairwise (· < ·)) (h0 : 0 < ts.length)
    (hlen : ts.length < 2 ^ 32) (hfirst : ts[0] ≤ currTs) (c : Cursor)
    (hcursor : usizeAdd c.rangeStartIndex c.startDelta < ts.length) :
    Addresses ts (evaluate ts range c currTs).1 (currTs - range) currTs := by
  -- the search back stops at the first sample or at one before the window
  have hwindow : ∀ i (h : i < ts.length), currTs - range ≤ ts[i] →
      searchBack ts (currTs - range) (usizeAdd c.rangeStartIndex c.startDelta) ≤ i := by
    intro i hi hstart
    rcases @searchBack_stop ts (currTs - range) _ hcursor with h | ⟨r, hr, heq, hle⟩
    · omega
    · rw [heq]
      by_contra hlt
      have := List.pairwise_iff_getElem.mp hsorted i r hi hr (not_le.mp hlt)
      omega
  dsimp only [evaluate]
  generalize searchBack ts (currTs - range) (usizeAdd c.rangeStartIndex c.startDelta) = cursor
    at hwindow ⊢
  have haddresses :=
    (evaluate_found ts range currTs cursor c.rangeStartIndex).addresses hsorted h0 hlen hfirst hwindow
  split_ifs at haddresses ⊢ <;> exact haddresses

theorem evaluate_exact_threeSamples :
    [0, 5, 9].Pairwise (· < ·) ∧ 0 < [0, 5, 9].length ∧ [0, 5, 9].length < 2 ^ 32 ∧
      ([0, 5, 9] : List ℤ)[0] ≤ 10 ∧ usizeAdd 0 0 < [0, 5, 9].length ∧
      Addresses [0, 5, 9] (evaluate [0, 5, 9] 6 ⟨0, 0, 0⟩ 10).1 (10 - 6) 10 :=
  ⟨by decide, by decide, by decide, by decide, by decide,
    evaluate_exact (by decide) (by decide) (by decide) (by decide) ⟨0, 0, 0⟩ (by decide)⟩

end Evaluate

/-! ## The whole loop -/

section Run

variable {ts : List ℤ} {range : ℤ}

lemma rangesFrom_cons (c : Cursor) (currTs : ℤ) (grid : List ℤ) :
    rangesFrom ts range c (currTs :: grid) =
      (evaluate ts range c currTs).1 :: rangesFrom ts range (evaluate ts range c currTs).2 grid :=
  rfl

lemma length_rangesFrom : ∀ (c : Cursor) (grid : List ℤ),
    (rangesFrom ts range c grid).length = grid.length
  | _, [] => rfl
  | c, currTs :: grid => by
    rw [rangesFrom_cons, List.length_cons, List.length_cons, length_rangesFrom _ grid]

/-- Every range of the loop lies inside a batch of fewer than `2 ^ 32` samples. -/
theorem rangesFrom_inBatch (h0 : 0 < ts.length) (hlen : ts.length < 2 ^ 32) :
    ∀ (c : Cursor) (grid : List ℤ), ∀ r ∈ rangesFrom ts range c grid, r.1 + r.2 ≤ ts.length
  | _, [] => fun _ h => absurd h List.not_mem_nil
  | c, currTs :: grid => by
    rw [rangesFrom_cons]
    rintro r (_ | ⟨_, hr⟩)
    · exact evaluate_inBatch h0 hlen c
    · exact rangesFrom_inBatch h0 hlen _ grid r hr

/-- On sorted samples, the range of each timestamp at or after the first sample holds only
samples of its window, wherever its scan starts. -/
lemma rangesFrom_sound (hsorted : ts.Pairwise (· ≤ ·)) (h0 : 0 < ts.length)
    (hlen : ts.length < 2 ^ 32) : ∀ (c : Cursor) (grid : List ℤ),
      List.Forall₂ (fun currTs r => ts[0] ≤ currTs → Within ts r (currTs - range) currTs) grid
        (rangesFrom ts range c grid)
  | _, [] => .nil
  | c, currTs :: grid => by
    rw [rangesFrom_cons]
    exact .cons (fun hfirst => evaluate_sound hsorted h0 hlen hfirst c)
      (rangesFrom_sound hsorted h0 hlen _ grid)

-- Only sound: after the range `(2, 1)` of `50`, moved by `2` from the one before, the scan of
-- `60` starts at `4`, past the batch, and finds nothing in `[45, 60]`.
example : rangesFrom [0, 1, 50] 15 ⟨0, 0, 0⟩ [0, 10, 20, 30, 40, 50, 60] =
    [(0, 1), (0, 2), (0, 0), (0, 0), (0, 0), (2, 1), (0, 0)] := by decide

end Run

/-! ## The timestamps evaluated -/

section Grid

variable {interval : ℤ}

lemma mem_stepBy (hinterval : 0 < interval) {start «end» t : ℤ} :
    t ∈ stepBy start «end» interval ↔ start ≤ t ∧ t ≤ «end» ∧ interval ∣ t - start := by
  unfold stepBy
  split_ifs with hle
  · have hspan : ((«end» - start).toNat : ℤ) = «end» - start := Int.toNat_of_nonneg (by omega)
    have hstep : (interval.toNat : ℤ) = interval := Int.toNat_of_nonneg hinterval.le
    have hpos : 0 < interval.toNat := by omega
    rw [List.mem_map]
    constructor
    · rintro ⟨k, hk, rfl⟩
      -- `k` steps of `interval` fit in the span
      have hkspan : k * interval.toNat ≤ («end» - start).toNat :=
        (Nat.le_div_iff_mul_le hpos).mp (Nat.lt_succ_iff.mp (List.mem_range.mp hk))
      have hcast : (k : ℤ) * interval ≤ «end» - start := by
        rw [← hspan, ← hstep]
        exact_mod_cast hkspan
      refine ⟨?_, by omega, ⟨k, by ring⟩⟩
      have : 0 ≤ (k : ℤ) * interval := mul_nonneg (Nat.cast_nonneg k) hinterval.le
      omega
    · rintro ⟨h₁, h₂, m, hm⟩
      have hm0 : 0 ≤ m := by
        by_contra hneg
        have : interval * m < 0 := mul_neg_of_pos_of_neg hinterval (by omega)
        omega
      refine ⟨m.toNat, List.mem_range.mpr (Nat.lt_succ_iff.mpr ((Nat.le_div_iff_mul_le hpos).mpr ?_)), ?_⟩
      · have : (m.toNat : ℤ) * interval.toNat ≤ («end» - start).toNat := by
          rw [hspan, hstep, Int.toNat_of_nonneg hm0]
          linarith
        exact_mod_cast this
      · rw [Int.toNat_of_nonneg hm0]
        linarith
  · simp only [List.not_mem_nil, false_iff]
    omega

lemma pairwise_stepBy (hinterval : 0 < interval) (start «end» : ℤ) :
    (stepBy start «end» interval).Pairwise (· < ·) := by
  unfold stepBy
  split_ifs
  · exact Rounding.pairwise_progression hinterval start _
  · exact List.Pairwise.nil

end Grid

end RangeManipulate

/-- The configuration of `RangeManipulateStream` that the ranges read, in milliseconds. -/
structure RangeManipulate where
  start : ℤ
  «end» : ℤ
  interval : ℤ
  range : ℤ

namespace RangeManipulate

variable (c : RangeManipulate)

/-- `aligned_ts_array`: the timestamps of the whole query. -/
def alignedTsArray : List ℤ := buildAlignedTsArray c.start c.«end» c.interval

/-- `calculate_range` on the time index of a batch: the ranges, and the first and last
timestamps evaluated. -/
def calculateRange (ts : List ℤ) : List (ℕ × ℕ) × ℤ × ℤ :=
  match ts with
  | [] => ([], c.start, c.«end»)
  | firstTs :: rest =>
    let firstTsAligned := firstTs.tdiv c.interval * c.interval
    let lastTs := (firstTs :: rest).getLast (List.cons_ne_nil _ _)
    let lastTsAligned := (lastTs + c.range).tdiv c.interval * c.interval
    let start := max c.start firstTsAligned
    let «end» := min c.«end» lastTsAligned
    if «end» < start then ([], start, «end»)
    else (rangesFrom ts c.range ⟨0, 0, 0⟩ (stepBy start «end» c.interval), start, «end»)

/-- The errors `manipulate` can raise on a batch of the right schema. -/
inductive ManipulateError
  /-- `RangeArray::from_ranges`: a range past the end of the column. -/
  | illegalRange (offset length len : ℕ)
  /-- `RecordBatch::try_new`: columns of different lengths. -/
  | columnLength
  deriving DecidableEq

/-- `RangeArray::check_ranges`. -/
def checkRanges (valueLen : ℕ) : List (ℕ × ℕ) → Except ManipulateError Unit
  | [] => .ok ()
  | (offset, length) :: ranges =>
    if offset + length ≤ valueLen then checkRanges valueLen ranges
    else .error (.illegalRange offset length valueLen)

/-- `manipulate` on the time index of a batch: `None` when every range is empty, and otherwise
the time index of the output and the ranges of its rows. -/
def manipulate (ts : List ℤ) : Except ManipulateError (Option (List ℤ × List (ℕ × ℕ))) :=
  let (ranges, start, «end») := c.calculateRange ts
  if ranges.all (·.2 = 0) then .ok none
  else do
    checkRanges ts.length ranges
    let newTimeIndex := if ranges.length ≠ c.alignedTsArray.length then
      buildAlignedTsArray start «end» c.interval else c.alignedTsArray
    if newTimeIndex.length ≠ ranges.length then .error .columnLength
    else pure (some (newTimeIndex, ranges))

/-- A query from `0` to `10` every `10` ms over `5` ms windows, on one sample at `5`: the row at
`0` gets the sample, which is after its window `[-5, 0]`.  `range_end` starts at `0`, the index
of the first sample, so a scan that stops at once at the first sample reads as a range holding
it. -/
theorem manipulate_beforeFirstSample :
    (⟨0, 10, 10, 5⟩ : RangeManipulate).manipulate [5] = .ok (some ([0, 10], [(0, 1), (0, 1)])) ∧
      ¬ Within [5] (0, 1) (0 - 5) 0 :=
  ⟨by decide, fun h => absurd (h.2 0 (by decide) le_rfl (by decide)).2 (by decide)⟩

/-! ## The output -/

/-- `calculate_range` evaluates nothing, or the timestamps from the larger of `start` and the
first sample rounded toward zero to the smaller of `end` and the last sample plus `range`
rounded toward zero. -/
lemma calculateRange_cases (ts : List ℤ) :
    (c.calculateRange ts).1 = [] ∨
      ∃ h0 : 0 < ts.length,
        (c.calculateRange ts).2.1 = max c.start (ts[0].tdiv c.interval * c.interval) ∧
        (c.calculateRange ts).2.2 =
          min c.«end» ((ts[ts.length - 1] + c.range).tdiv c.interval * c.interval) ∧
        (c.calculateRange ts).1 = rangesFrom ts c.range ⟨0, 0, 0⟩
          (stepBy (c.calculateRange ts).2.1 (c.calculateRange ts).2.2 c.interval) := by
  match ts with
  | [] => exact .inl rfl
  | firstTs :: rest =>
    unfold calculateRange
    dsimp only
    split_ifs
    · exact .inl rfl
    · refine .inr ⟨List.length_pos_of_ne_nil (List.cons_ne_nil _ _), rfl, ?_, rfl⟩
      rw [List.getLast_eq_getElem]

lemma checkRanges_ok {valueLen : ℕ} :
    ∀ ranges : List (ℕ × ℕ), (∀ r ∈ ranges, r.1 + r.2 ≤ valueLen) → checkRanges valueLen ranges = .ok ()
  | [], _ => rfl
  | (offset, length) :: ranges, h => by
    rw [checkRanges, if_pos (h _ List.mem_cons_self)]
    exact checkRanges_ok ranges fun r hr => h r (List.mem_cons_of_mem _ hr)

/-- `manipulate` never fails on a batch of fewer than `2 ^ 32` samples: every range lies inside
the batch, and the time index has a row for each range. -/
theorem manipulate_ok (ts : List ℤ) (hlen : ts.length < 2 ^ 32) :
    ∃ out, c.manipulate ts = .ok out ∧ ∀ times ranges, out = some (times, ranges) →
      times.length = ranges.length ∧ ∀ r ∈ ranges, r.1 + r.2 ≤ ts.length := by
  have hcases := c.calculateRange_cases ts
  unfold manipulate
  generalize c.calculateRange ts = result at hcases ⊢
  obtain ⟨ranges, start, stop⟩ := result
  dsimp only at hcases ⊢
  rcases hcases with rfl | ⟨h0, -, -, rfl⟩
  · exact ⟨none, rfl, fun _ _ h => nomatch h⟩
  have hin : ∀ r ∈ rangesFrom ts c.range ⟨0, 0, 0⟩ (stepBy start stop c.interval),
      r.1 + r.2 ≤ ts.length :=
    rangesFrom_inBatch h0 hlen _ _
  split_ifs with hall hlength hcolumns hcolumns
  · exact ⟨none, rfl, fun _ _ h => nomatch h⟩
  · exact absurd (by rw [buildAlignedTsArray, length_rangesFrom]) hcolumns
  · -- the time index is built for the timestamps evaluated
    rw [checkRanges_ok _ hin]
    exact ⟨_, rfl, fun times ranges h => by
      cases h
      exact ⟨not_not.mp hcolumns, hin⟩⟩
  · exact absurd (not_not.mp hlength).symm hcolumns
  · -- the time index of the whole query has a row for each range
    rw [checkRanges_ok _ hin]
    exact ⟨_, rfl, fun times ranges h => by
      cases h
      exact ⟨not_not.mp hcolumns, hin⟩⟩

/-- What an output of `manipulate` is made of: the ranges of the timestamps evaluated, and the
time index built for them or, when there are as many, the time index of the whole query. -/
lemma manipulate_some {ts times : List ℤ} {ranges : List (ℕ × ℕ)}
    (hout : c.manipulate ts = .ok (some (times, ranges))) :
    ∃ h0 : 0 < ts.length,
      (c.calculateRange ts).2.1 = max c.start (ts[0].tdiv c.interval * c.interval) ∧
      (c.calculateRange ts).2.2 =
        min c.«end» ((ts[ts.length - 1] + c.range).tdiv c.interval * c.interval) ∧
      ranges = rangesFrom ts c.range ⟨0, 0, 0⟩
        (stepBy (c.calculateRange ts).2.1 (c.calculateRange ts).2.2 c.interval) ∧
      (times = stepBy (c.calculateRange ts).2.1 (c.calculateRange ts).2.2 c.interval ∨
        times = c.alignedTsArray ∧ ranges.length = c.alignedTsArray.length) := by
  have hcases := c.calculateRange_cases ts
  unfold manipulate at hout
  generalize c.calculateRange ts = result at hcases hout ⊢
  obtain ⟨ranges', start, stop⟩ := result
  dsimp only at hcases hout ⊢
  rcases hcases with rfl | ⟨h0, hstart, hstop, rfl⟩
  · cases hout
  refine ⟨h0, hstart, hstop, ?_⟩
  -- the ranges lie in the batch, or `manipulate` would have failed
  cases hcheck : checkRanges ts.length (rangesFrom ts c.range ⟨0, 0, 0⟩ (stepBy start stop c.interval))
  all_goals simp only [hcheck, bind, Except.bind] at hout
  · split_ifs at hout
    cases hout
  -- a time index of another length is an error, which `hout` rules out
  split_ifs at hout with hall hlength hcolumns hcolumns
  · cases hout
  · simp only [pure, Except.pure, Except.ok.injEq, Option.some.injEq, Prod.mk.injEq] at hout
    obtain ⟨rfl, rfl⟩ := hout
    exact ⟨rfl, .inl rfl⟩
  · simp only [pure, Except.pure, Except.ok.injEq, Option.some.injEq, Prod.mk.injEq] at hout
    obtain ⟨rfl, rfl⟩ := hout
    exact ⟨rfl, .inr ⟨rfl, not_not.mp hlength⟩⟩

/-- When `start` is a multiple of `interval`, the rows of an output of `manipulate` on a sorted
batch are at the timestamps evaluated: each on the grid of `start` and `interval` within
`[start, end]`, every timestamp of that grid whose window holds a sample among them, and the
range of a row at or after a sample holding only samples of its window. -/
theorem manipulate_timeIndex_of_dvd (ts : List ℤ) (hsorted : ts.Pairwise (· ≤ ·))
    (hlen : ts.length < 2 ^ 32) (hinterval : 0 < c.interval) (hstart : c.interval ∣ c.start)
    {times : List ℤ} {ranges : List (ℕ × ℕ)} (hout : c.manipulate ts = .ok (some (times, ranges))) :
    ranges = rangesFrom ts c.range ⟨0, 0, 0⟩ times ∧
    (∀ t ∈ times, c.start ≤ t ∧ t ≤ c.«end» ∧ c.interval ∣ t - c.start) ∧
    (∀ t, c.start ≤ t → t ≤ c.«end» → c.interval ∣ t - c.start →
      (∃ i, ∃ h : i < ts.length, t - c.range ≤ ts[i] ∧ ts[i] ≤ t) → t ∈ times) ∧
    List.Forall₂ (fun t r => (∃ i, ∃ h : i < ts.length, ts[i] ≤ t) → Within ts r (t - c.range) t)
      times ranges := by
  obtain ⟨h0, hstart', hstop, hranges, htimes⟩ := c.manipulate_some hout
  generalize (c.calculateRange ts).2.1 = start at hstart' hranges htimes
  generalize (c.calculateRange ts).2.2 = stop at hstop hranges htimes
  -- the timestamps evaluated start at a multiple of `interval`
  have hdvd : c.interval ∣ start - c.start := by
    rw [hstart']
    rcases max_choice c.start (ts[0].tdiv c.interval * c.interval) with h | h
    · simp [h]
    · rw [h]
      exact Int.dvd_sub (Rounding.dvd_tdiv_mul _ _) hstart
  have hgrid : ∀ t ∈ stepBy start stop c.interval,
      c.start ≤ t ∧ t ≤ c.«end» ∧ c.interval ∣ t - c.start := by
    intro t ht
    obtain ⟨h₁, h₂, h₃⟩ := (mem_stepBy hinterval).mp ht
    refine ⟨(le_max_left _ _).trans (hstart' ▸ h₁), h₂.trans (hstop ▸ min_le_left _ _), ?_⟩
    have := Int.dvd_add h₃ hdvd
    rwa [sub_add_sub_cancel] at this
  -- as many as the timestamps of the query, they are those
  have htimes' : times = stepBy start stop c.interval := by
    rcases htimes with h | ⟨rfl, hlength⟩
    · exact h
    · refine (Rounding.eq_of_subset_of_length_eq (pairwise_stepBy hinterval _ _)
        (pairwise_stepBy hinterval _ _) (fun t ht => ?_) ?_).symm
      · obtain ⟨h₁, h₂, h₃⟩ := hgrid t ht
        exact (mem_stepBy hinterval).mpr ⟨h₁, h₂, h₃⟩
      · rw [hranges, length_rangesFrom] at hlength
        exact hlength
  subst htimes'
  refine ⟨hranges, hgrid, fun t h₁ h₂ h₃ ⟨i, hi, hlo, hhi⟩ => ?_, ?_⟩
  · -- a timestamp of the grid with a sample in its window is not rounded away at either end
    have ht : c.interval ∣ t := by
      have := Int.dvd_add h₃ hstart
      rwa [sub_add_cancel] at this
    have hfirst : ts[0] ≤ t := (getElem_mono hsorted h0 hi (Nat.zero_le _)).trans hhi
    have hlast : t ≤ ts[ts.length - 1] + c.range := by
      have := getElem_mono hsorted hi (by omega) (Nat.le_sub_one_of_lt hi)
      omega
    refine (mem_stepBy hinterval).mpr ⟨?_, ?_, ?_⟩
    · rw [hstart']
      exact max_le h₁ (Rounding.tdiv_mul_le_of_dvd hinterval ht hfirst)
    · rw [hstop]
      exact le_min h₂ (Rounding.le_tdiv_mul_of_dvd hinterval ht hlast)
    · have := Int.dvd_sub h₃ hdvd
      rwa [sub_sub_sub_cancel_right] at this
  · rw [hranges]
    refine (rangesFrom_sound hsorted h0 hlen _ _).imp fun t r hsound ⟨i, hi, hle⟩ => ?_
    exact hsound ((getElem_mono hsorted h0 hi (Nat.zero_le _)).trans hle)

theorem manipulate_timeIndex_of_dvd_fourSamples :
    ([0, 5, 12, 28] : List ℤ).Pairwise (· ≤ ·) ∧ [0, 5, 12, 28].length < 2 ^ 32 ∧
      0 < (⟨0, 30, 10, 5⟩ : RangeManipulate).interval ∧
      (⟨0, 30, 10, 5⟩ : RangeManipulate).interval ∣ (⟨0, 30, 10, 5⟩ : RangeManipulate).start ∧
      (⟨0, 30, 10, 5⟩ : RangeManipulate).manipulate [0, 5, 12, 28] =
        .ok (some ([0, 10, 20, 30], [(0, 1), (1, 1), (0, 0), (3, 1)])) ∧
      [(0, 1), (1, 1), (0, 0), (3, 1)] = rangesFrom [0, 5, 12, 28] 5 ⟨0, 0, 0⟩ [0, 10, 20, 30] ∧
      (∀ t ∈ ([0, 10, 20, 30] : List ℤ), 0 ≤ t ∧ t ≤ 30 ∧ 10 ∣ t - 0) ∧
      (∀ t : ℤ, 0 ≤ t → t ≤ 30 → 10 ∣ t - 0 →
        (∃ i, ∃ h : i < ([0, 5, 12, 28] : List ℤ).length, t - 5 ≤ ([0, 5, 12, 28] : List ℤ)[i] ∧
          ([0, 5, 12, 28] : List ℤ)[i] ≤ t) → t ∈ ([0, 10, 20, 30] : List ℤ)) ∧
      List.Forall₂ (fun (t : ℤ) r => (∃ i, ∃ h : i < ([0, 5, 12, 28] : List ℤ).length,
          ([0, 5, 12, 28] : List ℤ)[i] ≤ t) → Within [0, 5, 12, 28] r (t - 5) t)
        [0, 10, 20, 30] [(0, 1), (1, 1), (0, 0), (3, 1)] :=
  ⟨by decide, by decide, by decide, by decide, by decide,
    @manipulate_timeIndex_of_dvd ⟨0, 30, 10, 5⟩ [0, 5, 12, 28] (by decide) (by decide) (by decide)
      (by decide) [0, 10, 20, 30] [(0, 1), (1, 1), (0, 0), (3, 1)] (by decide)⟩

-- With `start` at `1`, off the multiples of `10`, the first sample rounded to `20` moves the
-- timestamps evaluated off the grid of `1`.
example : (⟨1, 41, 10, 5⟩ : RangeManipulate).manipulate [25] =
    .ok (some ([20, 30], [(0, 1), (0, 1)])) := by decide

end RangeManipulate

end Greptime
