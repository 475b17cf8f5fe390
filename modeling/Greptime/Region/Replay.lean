import Greptime.Region.WriteCtx

/-!
# Flushing a region and replaying its WAL (`mito2::flush`, `mito2::region::opener`)

A region's worker writes a batch (`handle_write_requests`): it logs the region's `WalEntry`
under the next entry id, then writes the rows to the mutable memtable and commits the last
sequence and entry id.  A flush (`schedule_flush`) freezes the mutable memtable and takes a
snapshot of the version: its job writes the frozen memtables to SST files and records the
snapshot's last entry id and committed sequence as flushed.  When the job finishes
(`handle_flush_finished`) the version gains the files and drops the frozen memtables, and the
WAL entries up to the flushed one are deleted (`obsolete`).

After a crash the region is opened from what persists (`Persisted`): the SST files, the
flushed entry id and sequence, and the WAL; the memtables are gone.  `replay_memtable` writes every entry after the flushed one again,
numbering its rows anew from the committed sequence.

`Region.Replayable` is the invariant that makes this work: replaying the WAL after the flushed
entry, from the flushed sequence, rebuilds the rows of all memtables and reaches the region's
committed sequence and last entry id (`ReplaysTo`); while a flush runs, replaying after its
snapshot rebuilds the mutable memtable.  Every write, flush and finished flush keeps it, so
a region reopened after any history holds the rows it held, with their sequences.

The manifest is not modelled here: the version's files and flushed ids stand for it, as a
flush applies the same edit to both.  The WAL is read as raft-engine reads it, from the start
id on, and the log store assigns the entry id it is given.  Failed writes and flushes, staging
mode, truncation, the `Noop` WAL and the replay checkpoint are left out.
-/

namespace Greptime

variable {R : Type}

/-- The snapshot a flush job takes (`RegionFlushTask::into_flush_job`): the frozen memtables
it writes, and the last entry id and committed sequence it records as flushed. -/
structure FlushTask (R : Type) where
  memtables : List (FrozenMemtable R)
  lastEntryId : ℕ
  committedSequence : ℕ
  deriving DecidableEq

/-- A region as its worker holds it: the version control, the region's entries in the WAL,
and the flush job running, if any. -/
structure Region (R : Type) where
  versionControl : VersionControl R
  wal : List (ℕ × WalEntry R)
  flushing : Option (FlushTask R)
  deriving DecidableEq

/-- The requests a region's worker handles. -/
inductive RegionEvent (R : Type)
  | write (requests : List (OpType × List R)) (bulks : List (BulkPart R))
  | scheduleFlush
  | flushFinished
  deriving DecidableEq

/-- The error of `replay_memtable` (`StaleLogEntry`). -/
inductive ReplayError
  | staleLogEntry (flushedEntryId unexpectedEntryId : ℕ)
  deriving DecidableEq, Repr

/-- The rows of all memtables of a version, frozen ones first. -/
def Version.memtableRows (v : Version R) : List (StoredRow R) :=
  v.immutables.flatMap FrozenMemtable.rows ++ v.mutable

namespace VersionControl

/-- `freeze_mutable`: a non-empty mutable memtable joins the frozen ones, and the new mutable
memtable takes the next id. -/
def freezeMutable (vc : VersionControl R) : VersionControl R :=
  if vc.version.mutable.isEmpty then vc
  else
    { vc with version :=
      { vc.version with
        mutable := []
        memtableId := vc.version.memtableId + 1
        immutables := vc.version.immutables ++ [⟨vc.version.memtableId, vc.version.mutable⟩] } }

/-- `apply_edit` with the edit of a finished flush: the files join the SSTs, the flushed entry
id and sequence only grow, and the flushed memtables are removed (`remove_memtables`). -/
def applyEdit (vc : VersionControl R) (task : FlushTask R) : VersionControl R :=
  let ids := task.memtables.map FrozenMemtable.id
  { vc with version :=
    { vc.version with
      ssts := vc.version.ssts ++ task.memtables.flatMap FrozenMemtable.rows
      flushedEntryId := max vc.version.flushedEntryId task.lastEntryId
      flushedSequence := max vc.version.flushedSequence task.committedSequence
      immutables := vc.version.immutables.filter fun m => !ids.contains m.id } }

end VersionControl

namespace Region

/-- A region as `RegionOpener::create` makes it: no data, nothing flushed. -/
def create : Region R :=
  ⟨VersionControl.new
    { mutable := [], memtableId := 0, immutables := [], ssts := [], flushedEntryId := 0,
      flushedSequence := 0 }, [], none⟩

/-- `handle_write_requests` for the region's requests: the entry is logged, then the rows are
written to the mutable memtable. -/
def write (r : Region R) (requests : List (OpType × List R)) (bulks : List (BulkPart R)) :
    Region R :=
  let ctx := RegionWriteCtx.prepare r.versionControl requests bulks
  let (entry, ctx) := ctx.addWalEntry
  -- the log store answers with the entry id it was given
  let ctx := ctx.setNextEntryId (entry.1 + 1)
  let (ctx, vc) := ctx.writeMemtable r.versionControl
  { r with versionControl := (ctx.writeBulk vc).2, wal := r.wal ++ [entry] }

/-- `schedule_flush`: nothing to do without memtables, nor while a job runs (the request joins
it); otherwise the mutable memtable is frozen and the job takes its snapshot. -/
def scheduleFlush (r : Region R) : Region R :=
  if r.versionControl.version.mutable.isEmpty && r.versionControl.version.immutables.isEmpty then r
  else
    match r.flushing with
    | some _ => r
    | none =>
      let vc := r.versionControl.freezeMutable
      { r with
        versionControl := vc
        flushing := some ⟨vc.version.immutables, vc.lastEntryId, vc.committedSequence⟩ }

/-- `handle_flush_finished`: the edit of the job is applied, and `obsolete` deletes the WAL
entries up to its entry id. -/
def flushFinished (r : Region R) : Region R :=
  match r.flushing with
  | none => r
  | some task =>
    { versionControl := r.versionControl.applyEdit task
      wal := r.wal.filter fun e => task.lastEntryId < e.1
      flushing := none }

/-- One request of the worker. -/
def step (r : Region R) : RegionEvent R → Region R
  | .write requests bulks => r.write requests bulks
  | .scheduleFlush => r.scheduleFlush
  | .flushFinished => r.flushFinished

/-- The requests, in order. -/
def run (r : Region R) (events : List (RegionEvent R)) : Region R :=
  events.foldl step r

end Region

/-- One entry of the loop of `replay_memtable`: a fresh context pushes the entry's mutations and
bulk entries, then writes them with the entry id after the last one read. -/
def replayEntry (flushedEntryId : ℕ) (allowStaleEntries : Bool) (acc : ℕ × VersionControl R)
    (e : ℕ × WalEntry R) : Except ReplayError (ℕ × VersionControl R) := do
  let (lastEntryId, vc) := acc
  let (entryId, entry) := e
  if entryId ≤ flushedEntryId && !allowStaleEntries then
    throw (.staleLogEntry flushedEntryId entryId)
  let lastEntryId := max lastEntryId entryId
  let ctx := ((RegionWriteCtx.new vc).pushEntry entry).setNextEntryId (lastEntryId + 1)
  let (ctx, vc) := ctx.writeMemtable vc
  pure (lastEntryId, (ctx.writeBulk vc).2)

/-- `replay_memtable`: the WAL entries read from the one after `flushed_entry_id`, replayed in
order; returns the last entry id and the version control. -/
def replayMemtable (wal : List (ℕ × WalEntry R)) (flushedEntryId : ℕ) (vc : VersionControl R)
    (allowStaleEntries : Bool) : Except ReplayError (ℕ × VersionControl R) :=
  (wal.filter fun e => flushedEntryId + 1 ≤ e.1).foldlM
    (replayEntry flushedEntryId allowStaleEntries) (flushedEntryId, vc)

/-- What survives a crash: the SST files and the flushed entry id and sequence, which the
manifest records, and the region's entries in the WAL. -/
structure Persisted (R : Type) where
  ssts : List (StoredRow R)
  flushedEntryId : ℕ
  flushedSequence : ℕ
  wal : List (ℕ × WalEntry R)
  deriving DecidableEq

/-- What a region leaves behind when it crashes: its memtables and the flush running are lost. -/
def Region.persisted (r : Region R) : Persisted R :=
  ⟨r.versionControl.version.ssts, r.versionControl.version.flushedEntryId,
    r.versionControl.version.flushedSequence, r.wal⟩

/-- `RegionOpener::open` after a crash, from what persists: a version of the SST files and the
flushed ids with an empty memtable of id `0`, and the WAL replayed after the flushed entry with
`allow_stale_entries` off. -/
def Persisted.reopen (p : Persisted R) : Except ReplayError (Region R) := do
  let version : Version R :=
    { mutable := [], memtableId := 0, immutables := [], ssts := p.ssts,
      flushedEntryId := p.flushedEntryId, flushedSequence := p.flushedSequence }
  let (_, vc) ← replayMemtable p.wal version.flushedEntryId (VersionControl.new version) false
  pure ⟨vc, p.wal, none⟩

/-! ## Replaying the WAL -/

section Replay

variable {wal : List (ℕ × WalEntry R)} {L : ℕ}

/-- Replaying an entry after the flushed one writes the rows its entry pushes again, and
commits their last sequence and the entry id. -/
lemma replayEntry_of_lt (allow : Bool) (last : ℕ) (vc : VersionControl R) {entryId : ℕ}
    (entry : WalEntry R) (h : L < entryId) :
    replayEntry L allow (last, vc) (entryId, entry) =
      .ok (max last entryId,
        (vc.writeRows ((RegionWriteCtx.new vc).pushEntry entry).rows).setSequenceAndEntryId
          (((RegionWriteCtx.new vc).pushEntry entry).nextSequence - 1) (max last entryId)) := by
  have hfresh : (decide (entryId ≤ L) && !allow) = false := by simp [Nat.not_le.mpr h]
  simp only [replayEntry, hfresh, Bool.false_eq_true, ↓reduceIte]
  rw [RegionWriteCtx.writeMemtable_writeBulk]
  simp only [RegionWriteCtx.setNextEntryId_rows, RegionWriteCtx.setNextEntryId_nextSequence,
    RegionWriteCtx.setNextEntryId_nextEntryId, Nat.add_sub_cancel]
  rfl

/-- An entry appended after the flushed one is replayed after the others. -/
lemma replayMemtable_append {e : ℕ × WalEntry R} (vc : VersionControl R) (allow : Bool)
    (he : L < e.1) :
    replayMemtable (wal ++ [e]) L vc allow =
      replayMemtable wal L vc allow >>= fun acc => replayEntry L allow acc e := by
  have hkeep : [e].filter (fun e => decide (L + 1 ≤ e.1)) = [e] := by
    refine List.filter_eq_self.mpr fun a ha => ?_
    rw [List.mem_singleton.mp ha]
    exact decide_eq_true (by omega)
  simp only [replayMemtable, List.filter_append, hkeep, List.foldlM_append, List.foldlM_cons,
    List.foldlM_nil, bind_pure]

/-- Dropping the entries a replay does not read does not change it. -/
lemma replayMemtable_filter_lt {L' : ℕ} (h : L' ≤ L) (vc : VersionControl R) (allow : Bool) :
    replayMemtable (wal.filter fun e => L' < e.1) L vc allow = replayMemtable wal L vc allow := by
  unfold replayMemtable
  rw [List.filter_filter]
  congr 1
  refine List.filter_congr fun e _ => ?_
  by_cases hle : L + 1 ≤ e.1
  · simp [hle, show L' < e.1 by omega]
  · simp [hle]

/-- A WAL with no entry after the flushed one replays to nothing. -/
lemma replayMemtable_of_forall_le (hwal : ∀ e ∈ wal, e.1 ≤ L) (vc : VersionControl R)
    (allow : Bool) :
    replayMemtable wal L vc allow = .ok (L, vc) := by
  have hnone : wal.filter (fun e => decide (L + 1 ≤ e.1)) = [] :=
    List.filter_eq_nil_iff.mpr fun e he => by simpa [Nat.lt_succ_iff] using hwal e he
  simp only [replayMemtable, hnone, List.foldlM_nil]
  rfl

/-- Replaying `wal` after entry `L` from sequence `S`, on top of any version recording them as
flushed, writes `rows` to the mutable memtable and ends at entry `last` and sequence `seq`. -/
def ReplaysTo (wal : List (ℕ × WalEntry R)) (L S last seq : ℕ) (rows : List (StoredRow R)) :
    Prop :=
  ∀ base : Version R, base.flushedEntryId = L → base.flushedSequence = S →
    replayMemtable wal L (VersionControl.new base) false =
      .ok (last, ⟨{ base with mutable := base.mutable ++ rows }, seq, last⟩)

/-- A WAL with no entry after `L` replays, from `(L, S)`, to `(L, S)` and no rows. -/
lemma replaysTo_of_forall_le {S : ℕ} (hwal : ∀ e ∈ wal, e.1 ≤ L) :
    ReplaysTo wal L S L S [] := by
  intro base hL hS
  subst hL hS
  rw [replayMemtable_of_forall_le hwal]
  simp [VersionControl.new]

lemma ReplaysTo.filter_lt {S last seq : ℕ} {rows : List (StoredRow R)}
    (h : ReplaysTo wal L S last seq rows) {L' : ℕ} (hL' : L' ≤ L) :
    ReplaysTo (wal.filter fun e => L' < e.1) L S last seq rows := by
  intro base hL hS
  rw [replayMemtable_filter_lt hL']
  exact h base hL hS

/-- Replaying the entry of a write, from a version control at the sequence the write started
from: the replaying context collects the logged entry again, so the rows and the sequence are
the write's. -/
lemma replayEntry_prepare (vc vcR : VersionControl R)
    (hseq : vcR.committedSequence = vc.committedSequence) (hL : L ≤ vcR.lastEntryId)
    (requests : List (OpType × List R)) (bulks : List (BulkPart R)) :
    replayEntry L false (vcR.lastEntryId, vcR)
        (vcR.lastEntryId + 1, (RegionWriteCtx.prepare vc requests bulks).walEntry) =
      .ok (vcR.lastEntryId + 1,
        (vcR.writeRows (RegionWriteCtx.prepare vc requests bulks).rows).setSequenceAndEntryId
          ((RegionWriteCtx.prepare vc requests bulks).nextSequence - 1) (vcR.lastEntryId + 1)) := by
  have hmax : max vcR.lastEntryId (vcR.lastEntryId + 1) = vcR.lastEntryId + 1 :=
    max_eq_right (Nat.le_succ _)
  rw [replayEntry_of_lt _ _ _ _ (show L < vcR.lastEntryId + 1 by omega),
    RegionWriteCtx.pushEntry_walEntry vc vcR requests bulks hseq, hmax]
  rfl

/-- The step of a write: when the replay of the WAL has reached the entry id and sequence a
write starts from, it replays the write's entry to the rows and the sequence of the write. -/
lemma ReplaysTo.write {S : ℕ} {rows : List (StoredRow R)} {vc : VersionControl R}
    (h : ReplaysTo wal L S vc.lastEntryId vc.committedSequence rows) (hL : L ≤ vc.lastEntryId)
    (requests : List (OpType × List R)) (bulks : List (BulkPart R)) :
    ReplaysTo (wal ++ [(vc.lastEntryId + 1, (RegionWriteCtx.prepare vc requests bulks).walEntry)])
      L S (vc.lastEntryId + 1) ((RegionWriteCtx.prepare vc requests bulks).nextSequence - 1)
      (rows ++ (RegionWriteCtx.prepare vc requests bulks).rows) := by
  intro base hbL hbS
  rw [replayMemtable_append _ _ (show L < vc.lastEntryId + 1 by omega), h base hbL hbS]
  simp only [bind, Except.bind]
  -- the replay stands where the write started: same last entry id and committed sequence
  have hstep := replayEntry_prepare vc
    ⟨{ base with mutable := base.mutable ++ rows }, vc.committedSequence, vc.lastEntryId⟩
    rfl hL requests bulks
  rw [hstep]
  simp [VersionControl.writeRows, VersionControl.setSequenceAndEntryId]

end Replay

/-! ## Steps of the region -/

namespace VersionControl

@[simp] lemma freezeMutable_mutable (vc : VersionControl R) :
    vc.freezeMutable.version.mutable = [] := by
  unfold freezeMutable
  split_ifs with h
  · exact List.isEmpty_iff.mp h
  · rfl

/-- Freezing moves rows between memtables only. -/
@[simp] lemma freezeMutable_memtableRows (vc : VersionControl R) :
    vc.freezeMutable.version.memtableRows = vc.version.memtableRows := by
  unfold freezeMutable
  split_ifs with h
  · rfl
  · simp [Version.memtableRows]

/-- What a freeze leaves as it was. -/
lemma freezeMutable_frame (vc : VersionControl R) :
    vc.freezeMutable.lastEntryId = vc.lastEntryId ∧
      vc.freezeMutable.committedSequence = vc.committedSequence ∧
      vc.freezeMutable.version.ssts = vc.version.ssts ∧
      vc.freezeMutable.version.flushedEntryId = vc.version.flushedEntryId ∧
      vc.freezeMutable.version.flushedSequence = vc.version.flushedSequence := by
  unfold freezeMutable
  split_ifs <;> simp

/-- A finished flush removes every memtable it flushed. -/
lemma applyEdit_immutables (vc : VersionControl R) (task : FlushTask R)
    (h : task.memtables = vc.version.immutables) :
    (vc.applyEdit task).version.immutables = [] := by
  simp only [applyEdit, h]
  refine List.filter_eq_nil_iff.mpr fun m hm => ?_
  simpa using ⟨m, hm, rfl⟩

/-- What a finished flush leaves as it was. -/
lemma applyEdit_frame (vc : VersionControl R) (task : FlushTask R) :
    (vc.applyEdit task).lastEntryId = vc.lastEntryId ∧
      (vc.applyEdit task).committedSequence = vc.committedSequence ∧
      (vc.applyEdit task).version.mutable = vc.version.mutable :=
  ⟨rfl, rfl, rfl⟩

end VersionControl

namespace Region

/-- A write in closed form: the rows of its context join the mutable memtable, the context's
last sequence and entry id are committed, and its entry is logged. -/
lemma write_eq (r : Region R) (requests : List (OpType × List R)) (bulks : List (BulkPart R)) :
    r.write requests bulks =
      let ctx := RegionWriteCtx.prepare r.versionControl requests bulks
      { r with
        versionControl := (r.versionControl.writeRows ctx.rows).setSequenceAndEntryId
          (ctx.nextSequence - 1) (r.versionControl.lastEntryId + 1)
        wal := r.wal ++ [(r.versionControl.lastEntryId + 1, ctx.walEntry)] } := by
  simp only [write, RegionWriteCtx.addWalEntry, RegionWriteCtx.prepare_nextEntryId]
  rw [RegionWriteCtx.writeMemtable_writeBulk]
  rfl

end Region

/-! ## The invariant -/

/-- What holds of the flush job a region runs: it flushes the frozen memtables; its entry id and
sequence are at least the flushed ones and at most the region's; and replaying the WAL after
its snapshot rebuilds the mutable memtable. -/
structure FlushTask.Valid (task : FlushTask R) (r : Region R) : Prop where
  memtables : task.memtables = r.versionControl.version.immutables
  flushedEntryId_le : r.versionControl.version.flushedEntryId ≤ task.lastEntryId
  flushedSequence_le : r.versionControl.version.flushedSequence ≤ task.committedSequence
  lastEntryId_le : task.lastEntryId ≤ r.versionControl.lastEntryId
  committedSequence_le : task.committedSequence ≤ r.versionControl.committedSequence
  replays : ReplaysTo r.wal task.lastEntryId task.committedSequence r.versionControl.lastEntryId
    r.versionControl.committedSequence r.versionControl.version.mutable

/-- A region whose WAL, replayed after the flushed entry, rebuilds its memtables. -/
structure Region.Replayable (r : Region R) : Prop where
  flushedEntryId_le : r.versionControl.version.flushedEntryId ≤ r.versionControl.lastEntryId
  flushedSequence_le :
    r.versionControl.version.flushedSequence ≤ r.versionControl.committedSequence
  wal_le : ∀ e ∈ r.wal, e.1 ≤ r.versionControl.lastEntryId
  replays : ReplaysTo r.wal r.versionControl.version.flushedEntryId
    r.versionControl.version.flushedSequence r.versionControl.lastEntryId
    r.versionControl.committedSequence r.versionControl.version.memtableRows
  idle : r.flushing = none → r.versionControl.version.immutables = []
  flushing : ∀ task, r.flushing = some task → task.Valid r

namespace Region

lemma create_replayable : (create : Region R).Replayable where
  flushedEntryId_le := le_rfl
  flushedSequence_le := le_rfl
  wal_le := by simp [create]
  replays := replaysTo_of_forall_le (by simp [create])
  idle := fun _ => rfl
  flushing := by simp [create]

end Region

section Steps

variable {r : Region R}

/-- A write keeps a running flush valid: its rows go to the mutable memtable, which the replay
after the flush's snapshot rebuilds. -/
lemma FlushTask.Valid.write {task : FlushTask R} (h : task.Valid r)
    (requests : List (OpType × List R)) (bulks : List (BulkPart R)) :
    task.Valid (r.write requests bulks) := by
  have hlt := RegionWriteCtx.committedSequence_lt_prepare_nextSequence r.versionControl
    requests bulks
  have hwrite := h.replays.write h.lastEntryId_le requests bulks
  rw [Region.write_eq]
  dsimp only
  exact
    { memtables := h.memtables
      flushedEntryId_le := h.flushedEntryId_le
      flushedSequence_le := h.flushedSequence_le
      lastEntryId_le := Nat.le_succ_of_le h.lastEntryId_le
      committedSequence_le := by
        show task.committedSequence ≤ _ - 1
        have := h.committedSequence_le
        omega
      replays := hwrite }

/-- A write keeps a region replayable: its entry, appended to the WAL, replays to its rows. -/
lemma Region.Replayable.write (h : r.Replayable) (requests : List (OpType × List R))
    (bulks : List (BulkPart R)) :
    (r.write requests bulks).Replayable := by
  have hlt := RegionWriteCtx.committedSequence_lt_prepare_nextSequence r.versionControl
    requests bulks
  have hwrite := h.replays.write h.flushedEntryId_le requests bulks
  have hvalid : ∀ task, r.flushing = some task → task.Valid (r.write requests bulks) :=
    fun task htask => (h.flushing task htask).write requests bulks
  rw [Region.write_eq] at hvalid ⊢
  dsimp only at hvalid ⊢
  refine ⟨?_, ?_, ?_, ?_, h.idle, hvalid⟩
  · exact Nat.le_succ_of_le h.flushedEntryId_le
  · show r.versionControl.version.flushedSequence ≤ _ - 1
    have := h.flushedSequence_le
    omega
  · intro e he
    rcases List.mem_append.mp he with he | he
    · exact Nat.le_succ_of_le (h.wal_le e he)
    · rw [List.mem_singleton.mp he]
      exact le_rfl
  · simpa [Version.memtableRows, VersionControl.writeRows,
      VersionControl.setSequenceAndEntryId] using hwrite

/-- Scheduling a flush keeps a region replayable.  A new job snapshots the region just after
the freeze, when the mutable memtable is empty and the WAL holds no entry after its snapshot. -/
lemma Region.Replayable.scheduleFlush (h : r.Replayable) : r.scheduleFlush.Replayable := by
  unfold Region.scheduleFlush
  split_ifs with hempty
  · exact h
  split
  · exact h
  dsimp only
  set vc := r.versionControl.freezeMutable with hvc
  obtain ⟨hlast, hseq, -, hfl, hfs⟩ := r.versionControl.freezeMutable_frame
  rw [← hvc] at hlast hseq hfl hfs
  have hwal : ∀ e ∈ r.wal, e.1 ≤ vc.lastEntryId := hlast ▸ h.wal_le
  have hflushed : vc.version.flushedEntryId ≤ vc.lastEntryId := by
    rw [hlast, hfl]
    exact h.flushedEntryId_le
  have hflushedSeq : vc.version.flushedSequence ≤ vc.committedSequence := by
    rw [hseq, hfs]
    exact h.flushedSequence_le
  refine ⟨hflushed, hflushedSeq, hwal, ?_, (fun h => nomatch h), ?_⟩
  · rw [hvc, VersionControl.freezeMutable_memtableRows, ← hvc, hlast, hseq, hfl, hfs]
    exact h.replays
  -- the new job: the frozen memtables, and a snapshot past every entry of the WAL
  · rintro task ⟨⟩
    exact
      { memtables := rfl
        flushedEntryId_le := hflushed
        flushedSequence_le := hflushedSeq
        lastEntryId_le := le_rfl
        committedSequence_le := le_rfl
        replays := by
          rw [hvc, VersionControl.freezeMutable_mutable]
          exact replaysTo_of_forall_le hwal }

/-- A finished flush keeps a region replayable: its snapshot becomes the flushed one, and the
replay after it rebuilds the mutable memtable, the only one left. -/
lemma Region.Replayable.flushFinished (h : r.Replayable) : r.flushFinished.Replayable := by
  unfold Region.flushFinished
  split
  · exact h
  rename_i task htask
  have hv := h.flushing task htask
  obtain ⟨hlast, hseq, hmutable⟩ := r.versionControl.applyEdit_frame task
  have himm := r.versionControl.applyEdit_immutables task hv.memtables
  have hfl : max r.versionControl.version.flushedEntryId task.lastEntryId = task.lastEntryId :=
    max_eq_right hv.flushedEntryId_le
  have hfs : max r.versionControl.version.flushedSequence task.committedSequence =
      task.committedSequence :=
    max_eq_right hv.flushedSequence_le
  refine ⟨?_, ?_, ?_, ?_, fun _ => himm, fun _ h => nomatch h⟩
  · show max _ _ ≤ _
    rw [hfl]
    exact hv.lastEntryId_le
  · show max _ _ ≤ _
    rw [hfs]
    exact hv.committedSequence_le
  · intro e he
    exact h.wal_le e (List.mem_of_mem_filter he)
  · show ReplaysTo _ (max _ _) (max _ _) _ _ _
    rw [hfl, hfs, Version.memtableRows, himm, hmutable, hlast, hseq]
    exact hv.replays.filter_lt le_rfl

lemma Region.Replayable.step (h : r.Replayable) : ∀ event, (r.step event).Replayable
  | .write requests bulks => h.write requests bulks
  | .scheduleFlush => h.scheduleFlush
  | .flushFinished => h.flushFinished

/-- Every run of a replayable region keeps it replayable. -/
lemma Region.Replayable.run (h : r.Replayable) (events : List (RegionEvent R)) :
    (r.run events).Replayable := by
  induction events generalizing r with
  | nil => exact h
  | cons event events ih => exact ih (h.step event)

/-- The region a reopen gives back: the same SST files, flushed ids, committed sequence and
last entry id, and the rows of all memtables, as they were, in one mutable memtable. -/
def Region.recovered (r : Region R) : Region R :=
  ⟨⟨{ r.versionControl.version with
      mutable := r.versionControl.version.memtableRows, memtableId := 0, immutables := [] },
    r.versionControl.committedSequence, r.versionControl.lastEntryId⟩, r.wal, none⟩

/-- A replayable region reopens from what persists to `recovered`, which is replayable again. -/
lemma Region.Replayable.reopen (h : r.Replayable) :
    r.persisted.reopen = .ok r.recovered ∧ r.recovered.Replayable := by
  have hreplay := h.replays
    { mutable := [], memtableId := 0, immutables := [], ssts := r.versionControl.version.ssts,
      flushedEntryId := r.versionControl.version.flushedEntryId,
      flushedSequence := r.versionControl.version.flushedSequence } rfl rfl
  constructor
  · simp only [Persisted.reopen, Region.persisted]
    rw [hreplay]
    rfl
  · exact ⟨h.flushedEntryId_le, h.flushedSequence_le, h.wal_le,
      by simpa [Region.recovered, Version.memtableRows] using h.replays, fun _ => rfl,
      fun _ h => nomatch h⟩

end Steps

/-- After any history of writes and flushes, a region reopened from what persists (its SST
files, flushed ids and WAL) has the committed sequence, the last entry id, the SST rows and the
memtable rows the region had before the crash, every row with its sequence. -/
theorem region_reopen_recovers (events : List (RegionEvent R)) :
    ∃ r', ((Region.create : Region R).run events).persisted.reopen = .ok r' ∧
      r'.versionControl.committedSequence =
        ((Region.create : Region R).run events).versionControl.committedSequence ∧
      r'.versionControl.lastEntryId =
        ((Region.create : Region R).run events).versionControl.lastEntryId ∧
      r'.versionControl.version.ssts =
        ((Region.create : Region R).run events).versionControl.version.ssts ∧
      r'.versionControl.version.memtableRows =
        ((Region.create : Region R).run events).versionControl.version.memtableRows := by
  have h : ((Region.create : Region R).run events).Replayable := Region.create_replayable.run events
  refine ⟨_, h.reopen.1, rfl, rfl, rfl, ?_⟩
  simp [Region.recovered, Version.memtableRows]

end Greptime
