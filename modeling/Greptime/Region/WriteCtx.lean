import Greptime.Read.Batch

/-!
# Writing to a region (`mito2::region_write_ctx`, `mito2::region::version`)

A region's worker writes a batch of requests in three stages.  `RegionWriteCtx` collects the
requests of the region: each mutation (`push_mutation`) and each bulk part (`push_bulk`) gets
the next sequence number for its first row and moves the counter past its rows.  The
collected `WalEntry` is written to the WAL under the next entry id (`add_wal_entry`), and the
rows go to the mutable memtable (`write_memtable`, `write_bulk`), which also commits the last
sequence and entry id to the `VersionControl`.

Replaying the WAL after a crash builds a fresh context per entry from the recovered version
control and pushes the entry's mutations and bulk entries again: the sequences of the rows
are not read from the entry but numbered anew.  `pushEntry_walEntry` says that a context
built that way from the same committed sequence collects the very entry that was written, so
the rows get their old sequences back.

Rows are abstract (`R`): the write path never looks inside them.  Failed writes, the
notifiers and the metrics are left out.
-/

namespace Greptime

variable {R : Type}

/-- `Mutation` as a `WalEntry` holds it: the op type, the sequence of its first row, and its
rows. -/
structure Mutation (R : Type) where
  opType : OpType
  sequence : ℕ
  rows : Option (List R)
  deriving DecidableEq

/-- `BulkPart`, and the `BulkWalEntry` it is logged as: rows written together, with the
sequence of the first. -/
structure BulkPart (R : Type) where
  sequence : ℕ
  rows : List R
  deriving DecidableEq

/-- `WalEntry`: the mutations and the bulk entries of one write of a region. -/
structure WalEntry (R : Type) where
  mutations : List (Mutation R)
  bulkEntries : List (BulkPart R)
  deriving DecidableEq

/-- A row as the memtables and the SST files keep it: with its op type and its sequence. -/
structure StoredRow (R : Type) where
  row : R
  opType : OpType
  sequence : ℕ
  deriving DecidableEq

/-- The number of rows of a mutation (`rows.rows.len()`, `0` without rows). -/
def Mutation.numRows (m : Mutation R) : ℕ := (m.rows.map List.length).getD 0

/-- `KeyValues::new` and its iterator: the rows of a mutation, the `i`-th with the mutation's
sequence plus `i`; nothing for a mutation without rows. -/
def Mutation.keyValues (m : Mutation R) : List (StoredRow R) :=
  match m.rows with
  | some rows => rows.zipIdx.map fun (row, i) => ⟨row, m.opType, m.sequence + i⟩
  | none => []

/-- The op type and rows of a mutation: what replay calls `push_mutation` with. -/
def Mutation.request (m : Mutation R) : OpType × Option (List R) := (m.opType, m.rows)

/-- `BulkPart::num_rows`. -/
def BulkPart.numRows (b : BulkPart R) : ℕ := b.rows.length

/-- `BulkPart::to_mutation`: the rows of a bulk part as one put mutation, which is how the
time-series memtable writes them (`TimeSeriesMemtable::write_bulk`). -/
def BulkPart.toMutation (b : BulkPart R) : Mutation R := ⟨.put, b.sequence, some b.rows⟩

/-- A frozen memtable of a region: its id and its rows. -/
structure FrozenMemtable (R : Type) where
  id : ℕ
  rows : List (StoredRow R)
  deriving DecidableEq

/-- What a region's `Version` holds of the data: the rows of the mutable memtable and its id,
the frozen memtables, the rows of the SST files, and the WAL entry id and sequence flushed.
The time partitions of the mutable memtable are one memtable here. -/
structure Version (R : Type) where
  mutable : List (StoredRow R)
  memtableId : ℕ
  immutables : List (FrozenMemtable R)
  ssts : List (StoredRow R)
  flushedEntryId : ℕ
  flushedSequence : ℕ
  deriving DecidableEq

/-- `VersionControlData`: the version, the last committed sequence and the last WAL entry id
written. -/
structure VersionControl (R : Type) where
  version : Version R
  committedSequence : ℕ
  lastEntryId : ℕ
  deriving DecidableEq

namespace VersionControl

/-- `VersionControl::new`: sequence and entry id start from the flushed ones. -/
def new (version : Version R) : VersionControl R :=
  ⟨version, version.flushedSequence, version.flushedEntryId⟩

/-- `set_sequence_and_entry_id`. -/
def setSequenceAndEntryId (vc : VersionControl R) (seq entryId : ℕ) : VersionControl R :=
  { vc with committedSequence := seq, lastEntryId := entryId }

/-- Writes rows to the mutable memtable (`TimePartitions::write`). -/
def writeRows (vc : VersionControl R) (rows : List (StoredRow R)) : VersionControl R :=
  { vc with version := { vc.version with mutable := vc.version.mutable ++ rows } }

end VersionControl

/-- `RegionWriteCtx`, without notifiers, metrics and the failure flag. -/
structure RegionWriteCtx (R : Type) where
  nextSequence : ℕ
  nextEntryId : ℕ
  walEntry : WalEntry R
  bulkParts : List (BulkPart R)
  deriving DecidableEq

namespace RegionWriteCtx

/-- `RegionWriteCtx::new`: numbering starts after the committed sequence and the last entry. -/
def new (vc : VersionControl R) : RegionWriteCtx R :=
  ⟨vc.committedSequence + 1, vc.lastEntryId + 1, ⟨[], []⟩, []⟩

/-- `push_mutation`. -/
def pushMutation (ctx : RegionWriteCtx R) (opType : OpType) (rows : Option (List R)) :
    RegionWriteCtx R :=
  let mutation : Mutation R := ⟨opType, ctx.nextSequence, rows⟩
  { ctx with
    walEntry := { ctx.walEntry with mutations := ctx.walEntry.mutations ++ [mutation] }
    nextSequence := ctx.nextSequence + mutation.numRows }

/-- `push_bulk`: the part takes the next sequence.  Encoding the part as a `BulkWalEntry`
does not fail in the model. -/
def pushBulk (ctx : RegionWriteCtx R) (bulk : BulkPart R) : RegionWriteCtx R :=
  let bulk := { bulk with sequence := ctx.nextSequence }
  { ctx with
    walEntry := { ctx.walEntry with bulkEntries := ctx.walEntry.bulkEntries ++ [bulk] }
    nextSequence := ctx.nextSequence + bulk.numRows
    bulkParts := ctx.bulkParts ++ [bulk] }

/-- `add_wal_entry`: the entry to write under the next entry id. -/
def addWalEntry (ctx : RegionWriteCtx R) : (ℕ × WalEntry R) × RegionWriteCtx R :=
  ((ctx.nextEntryId, ctx.walEntry), { ctx with nextEntryId := ctx.nextEntryId + 1 })

/-- `set_next_entry_id`. -/
def setNextEntryId (ctx : RegionWriteCtx R) (nextEntryId : ℕ) : RegionWriteCtx R :=
  { ctx with nextEntryId }

/-- `write_memtable`: writes the mutations and commits the last sequence and entry id. -/
def writeMemtable (ctx : RegionWriteCtx R) (vc : VersionControl R) :
    RegionWriteCtx R × VersionControl R :=
  let rows := ctx.walEntry.mutations.flatMap Mutation.keyValues
  ({ ctx with walEntry := { ctx.walEntry with mutations := [] } },
    (vc.writeRows rows).setSequenceAndEntryId (ctx.nextSequence - 1) (ctx.nextEntryId - 1))

/-- `write_bulk`: writes the bulk parts.  With a single part it returns before committing the
sequence and entry id again. -/
def writeBulk (ctx : RegionWriteCtx R) (vc : VersionControl R) :
    RegionWriteCtx R × VersionControl R :=
  if ctx.bulkParts.isEmpty then (ctx, vc)
  else
    let rows := ctx.bulkParts.flatMap fun part => part.toMutation.keyValues
    if ctx.bulkParts.length = 1 then ({ ctx with bulkParts := [] }, vc.writeRows rows)
    else
      ({ ctx with bulkParts := [] },
        (vc.writeRows rows).setSequenceAndEntryId (ctx.nextSequence - 1) (ctx.nextEntryId - 1))

/-- `push_mutation` for each request, in order. -/
def pushMutations (ctx : RegionWriteCtx R) (requests : List (OpType × Option (List R))) :
    RegionWriteCtx R :=
  requests.foldl (fun ctx request => ctx.pushMutation request.1 request.2) ctx

/-- `push_bulk` for each part, in order. -/
def pushBulks (ctx : RegionWriteCtx R) (bulks : List (BulkPart R)) : RegionWriteCtx R :=
  bulks.foldl pushBulk ctx

/-- The context `prepare_region_write_ctx` builds for one region: its write requests, each
with its op type and rows, then its bulk requests. -/
def prepare (vc : VersionControl R) (requests : List (OpType × List R))
    (bulks : List (BulkPart R)) : RegionWriteCtx R :=
  ((new vc).pushMutations (requests.map fun request => (request.1, some request.2))).pushBulks bulks

/-- The pushes of `replay_memtable`: the entry's mutations with their op type and rows, then its
bulk entries. -/
def pushEntry (ctx : RegionWriteCtx R) (entry : WalEntry R) : RegionWriteCtx R :=
  (ctx.pushMutations (entry.mutations.map Mutation.request)).pushBulks entry.bulkEntries

/-- The rows a context writes to the memtable. -/
def rows (ctx : RegionWriteCtx R) : List (StoredRow R) :=
  ctx.walEntry.mutations.flatMap Mutation.keyValues ++
    ctx.bulkParts.flatMap fun part => part.toMutation.keyValues

/-- `write_memtable` then `write_bulk`: the rows written and the sequence and entry id
committed, whatever the number of bulk parts. -/
lemma writeMemtable_writeBulk (ctx : RegionWriteCtx R) (vc : VersionControl R) :
    ((ctx.writeMemtable vc).1.writeBulk (ctx.writeMemtable vc).2).2 =
      (vc.writeRows ctx.rows).setSequenceAndEntryId (ctx.nextSequence - 1)
        (ctx.nextEntryId - 1) := by
  obtain ⟨nextSequence, nextEntryId, walEntry, bulkParts⟩ := ctx
  -- the three branches of `write_bulk`: no part, one part (which does not commit again, but
  -- `write_memtable` has committed the same values), several parts
  rcases bulkParts with _ | ⟨part, _ | ⟨part', parts⟩⟩ <;>
    simp [writeMemtable, writeBulk, rows, VersionControl.writeRows,
      VersionControl.setSequenceAndEntryId]

/-! ## Pushing an entry again -/

@[simp] lemma setNextEntryId_rows (ctx : RegionWriteCtx R) (k : ℕ) :
    (ctx.setNextEntryId k).rows = ctx.rows := rfl

@[simp] lemma setNextEntryId_nextSequence (ctx : RegionWriteCtx R) (k : ℕ) :
    (ctx.setNextEntryId k).nextSequence = ctx.nextSequence := rfl

@[simp] lemma setNextEntryId_nextEntryId (ctx : RegionWriteCtx R) (k : ℕ) :
    (ctx.setNextEntryId k).nextEntryId = k := rfl

lemma pushMutations_setNextEntryId (ctx : RegionWriteCtx R) (k : ℕ)
    (requests : List (OpType × Option (List R))) :
    (ctx.setNextEntryId k).pushMutations requests =
      (ctx.pushMutations requests).setNextEntryId k := by
  induction requests generalizing ctx with
  | nil => rfl
  | cons request requests ih => exact ih (ctx.pushMutation request.1 request.2)

lemma pushBulks_setNextEntryId (ctx : RegionWriteCtx R) (k : ℕ) (bulks : List (BulkPart R)) :
    (ctx.setNextEntryId k).pushBulks bulks = (ctx.pushBulks bulks).setNextEntryId k := by
  induction bulks generalizing ctx with
  | nil => rfl
  | cons bulk bulks ih => exact ih (ctx.pushBulk bulk)

@[simp] lemma pushMutations_nextEntryId (ctx : RegionWriteCtx R)
    (requests : List (OpType × Option (List R))) :
    (ctx.pushMutations requests).nextEntryId = ctx.nextEntryId := by
  induction requests generalizing ctx with
  | nil => rfl
  | cons request requests ih => exact ih (ctx.pushMutation request.1 request.2)

@[simp] lemma pushBulks_nextEntryId (ctx : RegionWriteCtx R) (bulks : List (BulkPart R)) :
    (ctx.pushBulks bulks).nextEntryId = ctx.nextEntryId := by
  induction bulks generalizing ctx with
  | nil => rfl
  | cons bulk bulks ih => exact ih (ctx.pushBulk bulk)

lemma le_pushMutations_nextSequence (ctx : RegionWriteCtx R)
    (requests : List (OpType × Option (List R))) :
    ctx.nextSequence ≤ (ctx.pushMutations requests).nextSequence := by
  induction requests generalizing ctx with
  | nil => exact le_rfl
  | cons request requests ih =>
    calc ctx.nextSequence
        ≤ (ctx.pushMutation request.1 request.2).nextSequence := Nat.le_add_right _ _
      _ ≤ _ := ih _

lemma le_pushBulks_nextSequence (ctx : RegionWriteCtx R) (bulks : List (BulkPart R)) :
    ctx.nextSequence ≤ (ctx.pushBulks bulks).nextSequence := by
  induction bulks generalizing ctx with
  | nil => exact le_rfl
  | cons bulk bulks ih =>
    calc ctx.nextSequence
        ≤ (ctx.pushBulk bulk).nextSequence := Nat.le_add_right _ _
      _ ≤ _ := ih _

/-- A write takes the entry id after the last one. -/
@[simp] lemma prepare_nextEntryId (vc : VersionControl R) (requests : List (OpType × List R))
    (bulks : List (BulkPart R)) :
    (prepare vc requests bulks).nextEntryId = vc.lastEntryId + 1 := by
  simp [prepare, new]

/-- A write numbers its rows after the committed sequence. -/
lemma committedSequence_lt_prepare_nextSequence (vc : VersionControl R)
    (requests : List (OpType × List R)) (bulks : List (BulkPart R)) :
    vc.committedSequence < (prepare vc requests bulks).nextSequence :=
  calc vc.committedSequence
      < (new vc).nextSequence := Nat.lt_succ_self _
    _ ≤ _ := le_pushMutations_nextSequence _ _
    _ ≤ _ := le_pushBulks_nextSequence _ _

/-- The mutations pushed are logged with the op types and rows they were pushed with. -/
lemma pushMutations_requests (ctx : RegionWriteCtx R)
    (requests : List (OpType × Option (List R))) :
    (ctx.pushMutations requests).walEntry.mutations.map Mutation.request =
      ctx.walEntry.mutations.map Mutation.request ++ requests := by
  induction requests generalizing ctx with
  | nil => simp [pushMutations]
  | cons request requests ih =>
    rw [pushMutations, List.foldl_cons, ← pushMutations, ih]
    simp [pushMutation, Mutation.request]

lemma pushMutations_bulkEntries (ctx : RegionWriteCtx R)
    (requests : List (OpType × Option (List R))) :
    (ctx.pushMutations requests).walEntry.bulkEntries = ctx.walEntry.bulkEntries := by
  induction requests generalizing ctx with
  | nil => rfl
  | cons request requests ih => exact ih (ctx.pushMutation request.1 request.2)

lemma pushBulks_mutations (ctx : RegionWriteCtx R) (bulks : List (BulkPart R)) :
    (ctx.pushBulks bulks).walEntry.mutations = ctx.walEntry.mutations := by
  induction bulks generalizing ctx with
  | nil => rfl
  | cons bulk bulks ih => exact ih (ctx.pushBulk bulk)

/-- The bulk parts pushed are logged with the rows they were pushed with. -/
lemma pushBulks_rows (ctx : RegionWriteCtx R) (bulks : List (BulkPart R)) :
    (ctx.pushBulks bulks).walEntry.bulkEntries.map BulkPart.rows =
      ctx.walEntry.bulkEntries.map BulkPart.rows ++ bulks.map BulkPart.rows := by
  induction bulks generalizing ctx with
  | nil => simp [pushBulks]
  | cons bulk bulks ih =>
    rw [pushBulks, List.foldl_cons, ← pushBulks, ih]
    simp [pushBulk]

/-- `push_bulk` reads only the rows of a part: its sequence is replaced. -/
lemma pushBulks_congr (ctx : RegionWriteCtx R) {bulks bulks' : List (BulkPart R)}
    (h : bulks.map BulkPart.rows = bulks'.map BulkPart.rows) :
    ctx.pushBulks bulks = ctx.pushBulks bulks' := by
  induction bulks generalizing ctx bulks' with
  | nil =>
    obtain rfl : bulks' = [] := by simpa using h.symm
    rfl
  | cons bulk bulks ih =>
    obtain ⟨bulk', bulks', rfl⟩ : ∃ b bs, bulks' = b :: bs := by
      cases bulks' with
      | nil => simp at h
      | cons b bs => exact ⟨b, bs, rfl⟩
    simp only [List.map_cons, List.cons.injEq] at h
    have hpush : ctx.pushBulk bulk = ctx.pushBulk bulk' := by
      simp only [pushBulk, BulkPart.numRows, h.1]
    simp only [pushBulks, List.foldl_cons]
    rw [hpush]
    exact ih _ h.2

/-- Replay pushes again the entry a context logged: from the same committed sequence it
collects the same entry and bulk parts and reaches the same next sequence; only the next
entry id comes from the replaying version control. -/
lemma pushEntry_walEntry (vc vc' : VersionControl R) (requests : List (OpType × List R))
    (bulks : List (BulkPart R)) (hseq : vc'.committedSequence = vc.committedSequence) :
    (new vc').pushEntry (prepare vc requests bulks).walEntry =
      (prepare vc requests bulks).setNextEntryId (vc'.lastEntryId + 1) := by
  set requests' := requests.map fun request => (request.1, some request.2)
  have hnew : new vc' = (new vc).setNextEntryId (vc'.lastEntryId + 1) := by
    simp [new, setNextEntryId, hseq]
  -- the logged mutations are the pushed requests, the logged bulk entries the pushed parts
  have hmutations : (prepare vc requests bulks).walEntry.mutations.map Mutation.request =
      requests' := by
    rw [prepare, pushBulks_mutations, pushMutations_requests]
    rfl
  have hbulks : (prepare vc requests bulks).walEntry.bulkEntries.map BulkPart.rows =
      bulks.map BulkPart.rows := by
    rw [prepare, pushBulks_rows, pushMutations_bulkEntries]
    rfl
  rw [pushEntry, hmutations, pushBulks_congr _ hbulks, hnew, pushMutations_setNextEntryId,
    pushBulks_setNextEntryId]
  rfl

end RegionWriteCtx

end Greptime
