import Greptime.Region.Replay
import Greptime.Foundations.Ledger

/-!
# The flush scheduler of a region worker (`mito2::flush::FlushScheduler`)

A worker owns many regions and one `FlushScheduler`.  The scheduler keeps a `FlushStatus` for
each region that asked for a flush: whether a job of it runs (`flushing`), the flush asked for
while it ran (`pending_task`, whose senders wait for it), and the alters, writes and bulk writes
that wait for the flush before they can run.  `schedule_flush` starts a job when the region has
memtables, no job and no pending task: it freezes the mutable memtable, and the job takes a
snapshot of the frozen ones.  Otherwise the task joins the pending one.  When a job finishes
(`handle_flush_finished`), the version drops the memtables it flushed, its senders are answered,
and `on_flush_success` either keeps the region for its pending task or hands the waiting
requests back to the worker, which runs them; then `schedule_next_flush` starts the first
pending task of the map.  A failed job (`on_flush_failed`), and a region closed, dropped or
truncated (`remove_region_on_failure`), answer all that waits with an error.

The worker is modelled with every request it handles on this path as a `WorkerRequest`, and a
run is any sequence of them: the background jobs finish in any order, each by its place in
the list of running jobs.  Each sender is a number, and every answer it gets is recorded in
`replies`; a sender dropped unanswered gets `Reply.dropped`, which its receiver sees as a
closed channel.  What `freeze_mutable` and `Scheduler::schedule` answer, and whether
`wal.obsolete` succeeds, are given by the request (`Outcome`).  The region's version control is
the one the region model writes and flushes (`VersionControl.freezeMutable`,
`VersionControl.applyEdit`).

The status map is an `AList`; the order in which `schedule_next_flush` visits it, which the
`HashMap` leaves open, is given by the request too, so that every result holds whatever the
order.  Regions are writable leaders or closed; alters change the metadata only, and
their manifest update, stalled writes, staging mode and the metrics are left out.

What is proved:

* no sender is lost or answered twice: over every run, the senders held by running jobs and
  by the statuses, with those answered, are the senders of the requests
  (`run_waiters_perm`);
* in every run where `wal.obsolete` succeeds and no region is closed, dropped or truncated while
  a job of it runs, every region in the map is flushing or has a pending task and has
  memtables, and each flushing region has exactly one job (`run_inv`): the first assertion
  of `schedule_next_flush` and the one of `schedule_flush`'s empty branch hold;
* the second assertion of `schedule_next_flush` does not: a flushing region with a pending task
  that comes first in the map takes the turn, the task is merged back, and nothing starts
  (`scheduleNextFlush_of_first_flushing`);
* a failed `wal.obsolete` leaves the region flushing with no job, for good: no later flush of
  it starts, and every sender that asks for one waits until the region is closed
  (`obsoleteWal_stalls`).
-/

namespace Greptime

variable {R : Type}

namespace VersionControl

/-- `memtables.is_empty()`: no rows in the mutable memtable and no frozen memtable. -/
def memtablesEmpty (vc : VersionControl R) : Bool :=
  vc.version.mutable.isEmpty && vc.version.immutables.isEmpty

/-- What a worker's write does to the version control (`handle_write_requests`, as
`Region.write` computes it). -/
def write (vc : VersionControl R) (requests : List (OpType × List R))
    (bulks : List (BulkPart R)) : VersionControl R :=
  (Region.write ⟨vc, [], none⟩ requests bulks).versionControl

/-- `VersionControl::truncate` with `TruncateKind::All`: empty memtables from the next id, no
files, and the last entry id and committed sequence recorded as flushed. -/
def truncateAll (vc : VersionControl R) : VersionControl R :=
  { vc with version :=
    { mutable := [], memtableId := vc.version.memtableId + 1, immutables := [], ssts := [],
      flushedEntryId := vc.lastEntryId, flushedSequence := vc.committedSequence } }

end VersionControl

namespace Flush

/-! ## Requests, statuses and the worker -/

/-- The source of the error a sender receives. -/
inductive FlushError
  /-- The flush job failed (`FlushRegion`). -/
  | flushRegion
  | regionNotFound
  | regionClosed
  | regionDropped
  | regionTruncated
  /-- `wal.obsolete` failed after the flush. -/
  | obsoleteWal
  /-- `VersionControl::freeze_mutable` failed. -/
  | freezeMemtable
  /-- `Scheduler::schedule` refused the job. -/
  | scheduleJob
  deriving DecidableEq, Repr

/-- What a sender's receiver gets. -/
inductive Reply
  | ok
  | error (e : FlushError)
  /-- The sender was dropped unanswered: the receiver sees its channel closed. -/
  | dropped
  deriving DecidableEq, Repr

/-- What the environment answers to the scheduler while it handles one request: whether
`freeze_mutable` and `Scheduler::schedule` succeed, and the order in which
`region_status.values_mut()` visits the regions, which a `HashMap` leaves open: the regions of
the map that `statusOrder` names come first, in its order (`Worker.valuesOrder`). -/
structure Outcome where
  freezeOk : Bool
  scheduleOk : Bool
  statusOrder : List ℕ
  deriving DecidableEq, Repr

/-- `RegionFlushTask`, by its region and the senders waiting for it. -/
structure RegionFlushTask where
  regionId : ℕ
  senders : List ℕ
  deriving DecidableEq, Repr

/-- `RegionFlushTask::merge`: the other task's senders join (the region ids are equal). -/
def RegionFlushTask.merge (t other : RegionFlushTask) : RegionFlushTask :=
  { t with senders := t.senders ++ other.senders }

/-- An alter waiting for the flush, with its sender (`SenderDdlRequest` of an alter). -/
structure SenderDdlRequest where
  regionId : ℕ
  sender : ℕ
  deriving DecidableEq, Repr

/-- A write request with its sender (`SenderWriteRequest`). -/
structure SenderWriteRequest (R : Type) where
  regionId : ℕ
  sender : ℕ
  request : OpType × List R
  deriving DecidableEq

/-- A bulk write with its sender (`SenderBulkRequest`). -/
structure SenderBulkRequest (R : Type) where
  regionId : ℕ
  sender : ℕ
  part : BulkPart R
  deriving DecidableEq

/-- `FlushStatus`.  The region id is the status's key in the map, and the version control is
the region's, which the worker holds. -/
structure FlushStatus (R : Type) where
  flushing : Bool
  pendingTask : Option RegionFlushTask
  pendingDdls : List SenderDdlRequest
  pendingWrites : List (SenderWriteRequest R)
  pendingBulkWrites : List (SenderBulkRequest R)
  deriving DecidableEq

namespace FlushStatus

/-- `FlushStatus::new`. -/
def new : FlushStatus R := ⟨false, none, [], [], []⟩

/-- `FlushStatus::merge_task`. -/
def mergeTask (s : FlushStatus R) (task : RegionFlushTask) : FlushStatus R :=
  match s.pendingTask with
  | some pending => { s with pendingTask := some (pending.merge task) }
  | none => { s with pendingTask := some task }

/-- The senders of the pending task. -/
def taskSenders (s : FlushStatus R) : List ℕ :=
  (s.pendingTask.map RegionFlushTask.senders).getD []

/-- Every sender a status holds. -/
def waiters (s : FlushStatus R) : List ℕ :=
  s.taskSenders ++ s.pendingDdls.map (·.sender) ++ s.pendingWrites.map (·.sender) ++
    s.pendingBulkWrites.map (·.sender)

/-- The alters, writes and bulk writes a status holds, as `on_flush_success` hands them
back. -/
def pendingRequests (s : FlushStatus R) :
    List SenderDdlRequest × List (SenderWriteRequest R) × List (SenderBulkRequest R) :=
  (s.pendingDdls, s.pendingWrites, s.pendingBulkWrites)

end FlushStatus

/-- A flush job (`into_flush_job`): its region, the senders it answers, and the snapshot of
the version it flushes. -/
structure FlushJob (R : Type) where
  regionId : ℕ
  senders : List ℕ
  snapshot : FlushTask R
  deriving DecidableEq

/-- `RegionFlushTask::into_flush_job`: the job flushes the memtables the version holds frozen
now, and records its last entry id and committed sequence as flushed.  Its region is the one
scheduled, which the source asserts is the task's. -/
def RegionFlushTask.intoFlushJob (task : RegionFlushTask) (regionId : ℕ) (vc : VersionControl R) :
    FlushJob R :=
  ⟨regionId, task.senders, ⟨vc.version.immutables, vc.lastEntryId, vc.committedSequence⟩⟩

/-- `FlushScheduler`: the status of each region that asked for a flush, and the jobs the
background scheduler runs. -/
structure FlushScheduler (R : Type) where
  regionStatus : AList fun _ : ℕ => FlushStatus R
  scheduler : List (FlushJob R)

/-- The requests `on_flush_success` hands back: alters, writes and bulk writes. -/
abbrev PendingRequests (R : Type) :=
  List SenderDdlRequest × List (SenderWriteRequest R) × List (SenderBulkRequest R)

/-- What a `RegionWorkerLoop` holds on the flush path: each region's version control, which
regions are open (`RegionMap`), the flush scheduler, and every answer sent, in order. -/
structure Worker (R : Type) where
  versions : ℕ → VersionControl R
  regionOpen : ℕ → Bool
  flushScheduler : FlushScheduler R
  replies : List (ℕ × Reply)

namespace Worker

/-! ## The scheduler's operations -/

/-- Answers the senders, in order. -/
@[simps] def reply (w : Worker R) (senders : List ℕ) (r : Reply) : Worker R :=
  { w with replies := w.replies ++ senders.map fun s => (s, r) }

/-- The status of a region (`region_status.get`). -/
def status? (w : Worker R) (regionId : ℕ) : Option (FlushStatus R) :=
  w.flushScheduler.regionStatus.lookup regionId

/-- `FlushScheduler::is_flush_requested`. -/
def isFlushRequested (w : Worker R) (regionId : ℕ) : Bool :=
  decide (regionId ∈ w.flushScheduler.regionStatus)

/-- A region's status changed in place (`get_mut`). -/
@[simps] def setStatus (w : Worker R) (regionId : ℕ) (status : FlushStatus R) : Worker R :=
  { w with flushScheduler :=
    { w.flushScheduler with
      regionStatus := w.flushScheduler.regionStatus.replace regionId status } }

/-- A new region's status (`entry(region_id).or_insert_with`). -/
@[simps] def insertStatus (w : Worker R) (regionId : ℕ) (status : FlushStatus R) : Worker R :=
  { w with flushScheduler :=
    { w.flushScheduler with regionStatus := w.flushScheduler.regionStatus.insert regionId status } }

/-- `region_status.remove`. -/
@[simps] def eraseStatus (w : Worker R) (regionId : ℕ) : Worker R :=
  { w with flushScheduler :=
    { w.flushScheduler with regionStatus := w.flushScheduler.regionStatus.erase regionId } }

/-- `region_status.remove` of a status that is then dropped: the senders it holds are dropped
unanswered. -/
def dropStatus (w : Worker R) (regionId : ℕ) : Worker R :=
  match w.status? regionId with
  | some status => (w.eraseStatus regionId).reply status.waiters .dropped
  | none => w

/-- A region's new version control. -/
@[simps] def setVersion (w : Worker R) (regionId : ℕ) (vc : VersionControl R) : Worker R :=
  { w with versions := Function.update w.versions regionId vc }

/-- `Scheduler::schedule` of a job that it accepts. -/
@[simps] def submit (w : Worker R) (job : FlushJob R) : Worker R :=
  { w with flushScheduler :=
    { w.flushScheduler with scheduler := w.flushScheduler.scheduler ++ [job] } }

/-- The `j`-th running job is over. -/
@[simps] def finishJob (w : Worker R) (j : ℕ) : Worker R :=
  { w with flushScheduler :=
    { w.flushScheduler with scheduler := w.flushScheduler.scheduler.eraseIdx j } }

/-- `region_status.entry(region_id).or_insert_with(..)`: the region's status, and a new one in
the map where it had none. -/
def entryOrInsert (w : Worker R) (regionId : ℕ) : Worker R × FlushStatus R :=
  match w.status? regionId with
  | some status => (w, status)
  | none => (w.insertStatus regionId .new, .new)

/-- `schedule_flush` once the region has memtables and the status `status`: a task that finds
a job running or a task pending joins the pending one; otherwise the mutable memtable is
frozen and a job submitted, and a failure of either removes the status. -/
def startFlush (w : Worker R) (regionId : ℕ) (status : FlushStatus R) (task : RegionFlushTask)
    (o : Outcome) : Worker R × Except FlushError Unit :=
  if status.flushing then
    (w.setStatus regionId (status.mergeTask task), .ok ())
  else if status.pendingTask.isSome then
    (w.setStatus regionId (status.mergeTask task), .ok ())
  else if !o.freezeOk then
    -- the status is dropped, and the task's senders with it
    ((w.dropStatus regionId).reply task.senders .dropped, .error .freezeMemtable)
  else
    let vc := (w.versions regionId).freezeMutable
    let w := w.setVersion regionId vc
    if !o.scheduleOk then
      ((w.dropStatus regionId).reply task.senders .dropped, .error .scheduleJob)
    else
      ((w.setStatus regionId { status with flushing := true }).submit
        (task.intoFlushJob regionId vc), .ok ())

/-- `FlushScheduler::schedule_flush`. -/
def scheduleFlush (w : Worker R) (regionId : ℕ) (task : RegionFlushTask) (o : Outcome) :
    Worker R × Except FlushError Unit :=
  if (w.versions regionId).memtablesEmpty then
    -- the region has nothing to flush
    (w.reply task.senders .ok, .ok ())
  else
    let e := w.entryOrInsert regionId
    e.1.startFlush regionId e.2 task o

/-- The order of `region_status.values_mut()`: the regions of the map that `order` names, in
its order, then the others in the map's.  Every order of the map's regions is one of these. -/
def valuesOrder (w : Worker R) (order : List ℕ) : List ℕ :=
  (order.filter (· ∈ w.flushScheduler.regionStatus)).dedup ++
    w.flushScheduler.regionStatus.keys.filter (· ∉ order)

/-- The first status with a pending task in the order `values_mut` visits the map, with its
region and that task. -/
def firstPending? (w : Worker R) (order : List ℕ) : Option (ℕ × FlushStatus R × RegionFlushTask) :=
  (w.valuesOrder order).findSome? fun r => (w.status? r).bind fun st => st.pendingTask.map (r, st, ·)

/-- `FlushScheduler::schedule_next_flush`: the first region with a pending task gives it up
and `schedule_flush` runs it.  The source asserts that this region is not flushing. -/
def scheduleNextFlush (w : Worker R) (o : Outcome) : Worker R × Except FlushError Unit :=
  match w.firstPending? o.statusOrder with
  | none => (w, .ok ())
  | some (regionId, status, task) =>
    (w.setStatus regionId { status with pendingTask := none }).scheduleFlush regionId task o

/-- What `on_flush_success` does with the status of a region whose job is over.  Without a
pending task, or with nothing left to flush (the pending task's senders are answered), the
status goes and its requests are handed back; otherwise it stays for the pending task. -/
def finishStatus (w : Worker R) (regionId : ℕ) (status : FlushStatus R) :
    Worker R × Option (PendingRequests R) :=
  match status.pendingTask with
  | none => (w.eraseStatus regionId, some status.pendingRequests)
  | some task =>
    if (w.versions regionId).memtablesEmpty then
      ((w.reply task.senders .ok).eraseStatus regionId, some status.pendingRequests)
    else (w.setStatus regionId status, none)

/-- `FlushScheduler::on_flush_success`: the region is no longer flushing, its status is
finished, and the next flush is scheduled (its error is only logged). -/
def onFlushSuccess (w : Worker R) (regionId : ℕ) (o : Outcome) :
    Worker R × Option (PendingRequests R) :=
  match w.status? regionId with
  | none => (w, none)
  | some status =>
    let p := w.finishStatus regionId { status with flushing := false }
    ((p.1.scheduleNextFlush o).1, p.2)

/-- `FlushStatus::on_failure`: the pending task's senders, the alters and the writes get the
error; the bulk writes are dropped with the status, unanswered. -/
def onFailure (w : Worker R) (status : FlushStatus R) (e : FlushError) : Worker R :=
  (w.reply (status.taskSenders ++ status.pendingDdls.map (·.sender) ++
    status.pendingWrites.map (·.sender)) (.error e)).reply
    (status.pendingBulkWrites.map (·.sender)) .dropped

/-- `FlushScheduler::on_flush_failed`: the region's status goes, all it holds gets the error,
and the next flush is scheduled. -/
def onFlushFailed (w : Worker R) (regionId : ℕ) (o : Outcome) : Worker R :=
  match w.status? regionId with
  | none => w
  | some status => (((w.eraseStatus regionId).onFailure status .flushRegion).scheduleNextFlush o).1

/-- `FlushScheduler::remove_region_on_failure`. -/
def removeRegionOnFailure (w : Worker R) (regionId : ℕ) (e : FlushError) : Worker R :=
  match w.status? regionId with
  | none => w
  | some status => (w.eraseStatus regionId).onFailure status e

/-- `FlushScheduler::on_region_closed`. -/
def onRegionClosed (w : Worker R) (regionId : ℕ) : Worker R :=
  w.removeRegionOnFailure regionId .regionClosed

/-- `FlushScheduler::on_region_dropped`. -/
def onRegionDropped (w : Worker R) (regionId : ℕ) : Worker R :=
  w.removeRegionOnFailure regionId .regionDropped

/-- `FlushScheduler::on_region_truncated`. -/
def onRegionTruncated (w : Worker R) (regionId : ℕ) : Worker R :=
  w.removeRegionOnFailure regionId .regionTruncated

/-- A request joins a queue of the region's status.  The source unwraps the status and panics
without one; the worker only calls it when the region has one (`addPending_of_status`). -/
def addPending (w : Worker R) (regionId : ℕ) (push : FlushStatus R → FlushStatus R) :
    Worker R :=
  match w.status? regionId with
  | some status => w.setStatus regionId (push status)
  | none => w

/-- `FlushScheduler::add_ddl_request_to_pending`. -/
def addDdlRequestToPending (w : Worker R) (request : SenderDdlRequest) : Worker R :=
  w.addPending request.regionId fun s => { s with pendingDdls := s.pendingDdls ++ [request] }

/-- `FlushScheduler::add_write_request_to_pending`. -/
def addWriteRequestToPending (w : Worker R) (request : SenderWriteRequest R) : Worker R :=
  w.addPending request.regionId fun s => { s with pendingWrites := s.pendingWrites ++ [request] }

/-- `FlushScheduler::add_bulk_request_to_pending`. -/
def addBulkRequestToPending (w : Worker R) (request : SenderBulkRequest R) : Worker R :=
  w.addPending request.regionId fun s =>
    { s with pendingBulkWrites := s.pendingBulkWrites ++ [request] }

/-- `FlushScheduler::has_pending_ddls`. -/
def hasPendingDdls (w : Worker R) (regionId : ℕ) : Bool :=
  match w.status? regionId with
  | some status => !status.pendingDdls.isEmpty
  | none => false

/-! ## The worker's handlers -/

/-- `handle_flush_request`: the request's sender, if any, waits for the flush. -/
def handleFlushRequest (w : Worker R) (regionId : ℕ) (sender : Option ℕ) (o : Outcome) :
    Worker R :=
  if !w.regionOpen regionId then w.reply sender.toList (.error .regionNotFound)
  else (w.scheduleFlush regionId ⟨regionId, sender.toList⟩ o).1

/-- `flush_periodically` and `flush_regions_on_engine_full` for a region they pick: one that
has not asked for a flush is flushed, with no sender. -/
def flushPeriodically (w : Worker R) (regionId : ℕ) (o : Outcome) : Worker R :=
  if w.isFlushRequested regionId || !w.regionOpen regionId then w
  else (w.scheduleFlush regionId ⟨regionId, []⟩ o).1

/-- `handle_alter_request` for an alter that changes the metadata: with memtables, the region
is flushed first and the alter waits; without, the change is made. -/
def handleAlterRequest (w : Worker R) (request : SenderDdlRequest) (o : Outcome) : Worker R :=
  if !w.regionOpen request.regionId then w.reply [request.sender] (.error .regionNotFound)
  else if !(w.versions request.regionId).memtablesEmpty then
    match w.scheduleFlush request.regionId ⟨request.regionId, []⟩ o with
    | (w, .error e) => w.reply [request.sender] (.error e)
    | (w, .ok ()) => w.addDdlRequestToPending request
  else w.reply [request.sender] .ok

/-- `handle_write_requests` for one write request (`process_write_requests`): it waits while
the region has pending alters. -/
def handleWriteRequest (w : Worker R) (request : SenderWriteRequest R) : Worker R :=
  if w.hasPendingDdls request.regionId then w.addWriteRequestToPending request
  else if !w.regionOpen request.regionId then w.reply [request.sender] (.error .regionNotFound)
  else
    (w.setVersion request.regionId
      ((w.versions request.regionId).write [request.request] [])).reply [request.sender] .ok

/-- `handle_write_requests` for one bulk write (`process_bulk_requests`). -/
def handleBulkRequest (w : Worker R) (request : SenderBulkRequest R) : Worker R :=
  if w.hasPendingDdls request.regionId then w.addBulkRequestToPending request
  else if !w.regionOpen request.regionId then w.reply [request.sender] (.error .regionNotFound)
  else
    (w.setVersion request.regionId
      ((w.versions request.regionId).write [] [request.part])).reply [request.sender] .ok

/-- The requests `on_flush_success` hands back, alters first (`handle_ddl_requests`), then
writes and bulk writes (`handle_write_requests`). -/
def handlePendingRequests (w : Worker R) (pending : PendingRequests R) (o : Outcome) :
    Worker R :=
  let w := pending.1.foldl (fun w ddl => w.handleAlterRequest ddl o) w
  let w := pending.2.1.foldl handleWriteRequest w
  pending.2.2.foldl handleBulkRequest w

/-- `handle_flush_finished` for a job that is over: the version drops the flushed memtables,
the WAL is made obsolete, the job's senders are answered, and the scheduler is told. -/
def handleFlushFinished (w : Worker R) (job : FlushJob R) (walOk : Bool) (o : Outcome) :
    Worker R :=
  if !w.regionOpen job.regionId then w.reply job.senders (.error .regionNotFound)
  else
    let w := w.setVersion job.regionId ((w.versions job.regionId).applyEdit job.snapshot)
    if !walOk then w.reply job.senders (.error .obsoleteWal)
    else
      match (w.reply job.senders .ok).onFlushSuccess job.regionId o with
      | (w, some pending) => w.handlePendingRequests pending o
      | (w, none) => w

/-- `handle_flush_failed`, after the job's `do_flush` sent its senders the error. -/
def handleFlushFailed (w : Worker R) (job : FlushJob R) (o : Outcome) : Worker R :=
  (w.reply job.senders (.error .flushRegion)).onFlushFailed job.regionId o

/-- `handle_close_request`. -/
def handleCloseRequest (w : Worker R) (regionId : ℕ) : Worker R :=
  if !w.regionOpen regionId then w
  else { w with regionOpen := Function.update w.regionOpen regionId false }.onRegionClosed regionId

/-- `handle_drop_request`. -/
def handleDropRequest (w : Worker R) (regionId : ℕ) : Worker R :=
  if !w.regionOpen regionId then w
  else { w with regionOpen := Function.update w.regionOpen regionId false }.onRegionDropped regionId

/-- `handle_truncate_result` of a truncation written to the manifest: the version is truncated
(a partial truncation removes files only, which are not modelled) and the scheduler told. -/
def handleTruncateResult (w : Worker R) (regionId : ℕ) (all : Bool) : Worker R :=
  if !w.regionOpen regionId then w
  else
    let vc := w.versions regionId
    (w.setVersion regionId (if all then vc.truncateAll else vc)).onRegionTruncated regionId

end Worker

/-- The requests a worker handles on the flush path.  A background job's `FlushFinished` or
`FlushFailed` names the job by its place among those running. -/
inductive WorkerRequest (R : Type)
  | flush (regionId : ℕ) (sender : Option ℕ) (o : Outcome)
  | flushPeriodically (regionId : ℕ) (o : Outcome)
  | alter (request : SenderDdlRequest) (o : Outcome)
  | write (request : SenderWriteRequest R)
  | bulkWrite (request : SenderBulkRequest R)
  | flushFinished (job : ℕ) (walOk : Bool) (o : Outcome)
  | flushFailed (job : ℕ) (o : Outcome)
  | close (regionId : ℕ)
  | drop (regionId : ℕ)
  | truncate (regionId : ℕ) (all : Bool)
  deriving DecidableEq

namespace Worker

/-- One request of the worker. -/
def step (w : Worker R) : WorkerRequest R → Worker R
  | .flush regionId sender o => w.handleFlushRequest regionId sender o
  | .flushPeriodically regionId o => w.flushPeriodically regionId o
  | .alter request o => w.handleAlterRequest request o
  | .write request => w.handleWriteRequest request
  | .bulkWrite request => w.handleBulkRequest request
  | .flushFinished j walOk o =>
    match w.flushScheduler.scheduler[j]? with
    | some job => (w.finishJob j).handleFlushFinished job walOk o
    | none => w
  | .flushFailed j o =>
    match w.flushScheduler.scheduler[j]? with
    | some job => (w.finishJob j).handleFlushFailed job o
    | none => w
  | .close regionId => w.handleCloseRequest regionId
  | .drop regionId => w.handleDropRequest regionId
  | .truncate regionId all => w.handleTruncateResult regionId all

/-- The requests, in order. -/
def run (w : Worker R) (requests : List (WorkerRequest R)) : Worker R :=
  requests.foldl step w

/-- A worker whose regions have the given version controls and are open where `regionOpen`
says, before any flush. -/
def start (versions : ℕ → VersionControl R) (regionOpen : ℕ → Bool) : Worker R :=
  ⟨versions, regionOpen, ⟨∅, []⟩, []⟩

end Worker

/-! ## Sample runs -/

/-- Regions 1 and 2, open, with empty memtables. -/
def twoRegions : Worker ℕ :=
  Worker.start (fun _ => VersionControl.new ⟨[], 0, [], [], 0, 0⟩) fun r => r == 1 || r == 2

/-- A write of one row to a region, by a sender. -/
def writeRow (r sender : ℕ) : WorkerRequest ℕ := .write ⟨r, sender, (.put, [sender])⟩

/-- Both regions are written and flushed, written again and flushed again while their jobs run,
and region 2's job finishes first. -/
def interleaved : List (WorkerRequest ℕ) :=
  [writeRow 1 10, writeRow 2 11, .flush 2 (some 20) ⟨true, true, []⟩,
    .flush 1 (some 21) ⟨true, true, []⟩, writeRow 1 12, writeRow 2 13,
    .flush 1 (some 22) ⟨true, true, []⟩, .flush 2 (some 23) ⟨true, true, []⟩,
    .flushFinished 0 true ⟨true, true, []⟩]

/-- Region 1 written and flushed. -/
def flushedOnce : List (WorkerRequest ℕ) := [writeRow 1 10, .flush 1 (some 20) ⟨true, true, []⟩]

/-- Region 1 written and flushed again, and picked by the periodic flush. -/
def flushedAgain : List (WorkerRequest ℕ) :=
  [writeRow 1 11, .flush 1 (some 21) ⟨true, true, []⟩, .flushPeriodically 1 ⟨true, true, []⟩]

/-! ## What each operation changes -/

end Flush

namespace VersionControl

variable (vc : VersionControl R)

lemma memtablesEmpty_eq_false_iff :
    vc.memtablesEmpty = false ↔ vc.version.mutable ≠ [] ∨ vc.version.immutables ≠ [] := by
  simp only [memtablesEmpty, Bool.and_eq_false_iff, List.isEmpty_eq_false_iff, ne_eq]

/-- A freeze moves the mutable memtable among the frozen ones. -/
lemma immutables_subset_freezeMutable :
    vc.version.immutables ⊆ vc.freezeMutable.version.immutables := by
  unfold freezeMutable
  split_ifs
  · exact List.Subset.refl _
  · exact List.subset_append_left _ _

/-- A freeze of a version with memtables leaves a frozen one. -/
lemma freezeMutable_immutables_ne_nil (h : vc.memtablesEmpty = false) :
    vc.freezeMutable.version.immutables ≠ [] := by
  unfold freezeMutable
  split_ifs with hmut
  · rw [memtablesEmpty_eq_false_iff] at h
    simp_all
  · simp

lemma freezeMutable_memtablesEmpty (h : vc.memtablesEmpty = false) :
    vc.freezeMutable.memtablesEmpty = false :=
  (memtablesEmpty_eq_false_iff _).mpr (.inr (freezeMutable_immutables_ne_nil vc h))

/-- A write adds rows to the mutable memtable only. -/
lemma write_version (requests : List (OpType × List R)) (bulks : List (BulkPart R)) :
    (vc.write requests bulks).version.immutables = vc.version.immutables ∧
      vc.version.mutable <+: (vc.write requests bulks).version.mutable := by
  simp only [write, Region.write_eq]
  exact ⟨rfl, List.prefix_append _ _⟩

lemma write_memtablesEmpty (h : vc.memtablesEmpty = false) (requests : List (OpType × List R))
    (bulks : List (BulkPart R)) : (vc.write requests bulks).memtablesEmpty = false := by
  obtain ⟨himm, hmut⟩ := vc.write_version requests bulks
  rw [memtablesEmpty_eq_false_iff] at h ⊢
  rw [himm]
  refine h.imp_left fun hne hnil => hne ?_
  exact List.eq_nil_of_prefix_nil (hnil ▸ hmut)

end VersionControl

namespace Flush

namespace Worker

variable (w : Worker R) {r r' : ℕ} {st : FlushStatus R}

@[simp] lemma status?_reply (senders : List ℕ) (x : Reply) :
    (w.reply senders x).status? r = w.status? r := rfl

@[simp] lemma status?_setVersion (vc : VersionControl R) :
    (w.setVersion r' vc).status? r = w.status? r := rfl

@[simp] lemma status?_submit (job : FlushJob R) : (w.submit job).status? r = w.status? r := rfl

@[simp] lemma status?_finishJob (j : ℕ) : (w.finishJob j).status? r = w.status? r := rfl

lemma status?_setStatus_self (h : w.status? r = some st) (st' : FlushStatus R) :
    (w.setStatus r st').status? r = some st' :=
  Ledger.lookup_replace_self h st'

@[simp] lemma status?_setStatus_ne (hne : r' ≠ r) (st' : FlushStatus R) :
    (w.setStatus r st').status? r' = w.status? r' := by
  simp only [status?, setStatus_flushScheduler_regionStatus]
  exact Ledger.lookup_replace_ne hne _

@[simp] lemma status?_insertStatus_self (st' : FlushStatus R) :
    (w.insertStatus r st').status? r = some st' :=
  AList.lookup_insert _

@[simp] lemma status?_insertStatus_ne (hne : r' ≠ r) (st' : FlushStatus R) :
    (w.insertStatus r st').status? r' = w.status? r' :=
  AList.lookup_insert_ne hne

@[simp] lemma status?_eraseStatus_self : (w.eraseStatus r).status? r = none :=
  AList.lookup_erase _ _

@[simp] lemma status?_eraseStatus_ne (hne : r' ≠ r) :
    (w.eraseStatus r).status? r' = w.status? r' :=
  AList.lookup_erase_ne hne

lemma dropStatus_of_status? (h : w.status? r = some st) :
    w.dropStatus r = (w.eraseStatus r).reply st.waiters .dropped := by
  rw [dropStatus, h]

lemma dropStatus_of_status?_none (h : w.status? r = none) : w.dropStatus r = w := by
  rw [dropStatus, h]

/-- Every order of the map's regions is one that `values_mut` can take. -/
lemma valuesOrder_of_perm {order : List ℕ} (h : order.Perm w.flushScheduler.regionStatus.keys) :
    w.valuesOrder order = order := by
  have hkeys : ∀ r ∈ order, r ∈ w.flushScheduler.regionStatus :=
    fun r hr => AList.mem_keys.mp (h.subset hr)
  have hrest : ∀ r ∈ w.flushScheduler.regionStatus.keys, r ∈ order := fun r hr => h.symm.subset hr
  rw [valuesOrder, List.filter_eq_self.mpr (by simpa using hkeys),
    (h.nodup_iff.mpr w.flushScheduler.regionStatus.nodupKeys).dedup,
    List.filter_eq_nil_iff.mpr (by simpa using hrest), List.append_nil]

/-- The region `schedule_next_flush` picks has the status and the pending task it found. -/
lemma status?_of_firstPending? {order : List ℕ} {task : RegionFlushTask}
    (h : w.firstPending? order = some (r, st, task)) :
    w.status? r = some st ∧ st.pendingTask = some task := by
  obtain ⟨r', -, hf⟩ := List.exists_of_findSome?_eq_some h
  obtain ⟨st', hst', hf⟩ := Option.bind_eq_some_iff.mp hf
  obtain ⟨t, ht, heq⟩ := Option.map_eq_some_iff.mp hf
  simp only [Prod.mk.injEq] at heq
  obtain ⟨rfl, rfl, rfl⟩ := heq
  exact ⟨hst', ht⟩

end Worker

/-! ## The ways an operation can end -/

namespace Worker

variable (w : Worker R) {r : ℕ} {st : FlushStatus R} (task : RegionFlushTask) (o : Outcome)

/-- The ways `startFlush` can end, each with what it did. -/
lemma startFlush_cases (P : Worker R × Except FlushError Unit → Prop)
    (merged : st.flushing = true ∨ st.pendingTask.isSome = true →
      P (w.setStatus r (st.mergeTask task), .ok ()))
    (freezeFailed : st.flushing = false → st.pendingTask = none → o.freezeOk = false →
      P ((w.dropStatus r).reply task.senders .dropped, .error .freezeMemtable))
    (scheduleFailed : st.flushing = false → st.pendingTask = none → o.freezeOk = true →
      o.scheduleOk = false →
      P (((w.setVersion r (w.versions r).freezeMutable).dropStatus r).reply task.senders .dropped,
        .error .scheduleJob))
    (started : st.flushing = false → st.pendingTask = none → o.freezeOk = true →
      o.scheduleOk = true →
      P (((w.setVersion r (w.versions r).freezeMutable).setStatus r
        { st with flushing := true }).submit (task.intoFlushJob r (w.versions r).freezeMutable),
        .ok ())) :
    P (w.startFlush r st task o) := by
  unfold startFlush
  by_cases hf : st.flushing
  · simpa [hf] using merged (.inl hf)
  by_cases hp : st.pendingTask.isSome
  · simpa [hf, hp] using merged (.inr hp)
  have hnone : st.pendingTask = none := by simpa using hp
  simp only [hf, hp, Bool.false_eq_true, if_false]
  have hf' : st.flushing = false := by simpa using hf
  cases hfr : o.freezeOk
  · simpa using freezeFailed hf' hnone hfr
  cases hsc : o.scheduleOk
  · simpa using scheduleFailed hf' hnone hfr hsc
  · simpa using started hf' hnone hfr hsc

lemma status?_entryOrInsert : (w.entryOrInsert r).1.status? r = some (w.entryOrInsert r).2 := by
  unfold entryOrInsert
  split <;> simp_all

/-- A `schedule_flush` of a region with memtables that succeeds leaves it a status: the
`unwrap` of `add_ddl_request_to_pending` after it does not panic. -/
lemma status?_scheduleFlush_of_ok (hmem : (w.versions r).memtablesEmpty = false)
    (hok : (w.scheduleFlush r task o).2 = .ok ()) :
    ∃ st, (w.scheduleFlush r task o).1.status? r = some st := by
  have hentry := status?_entryOrInsert w (r := r)
  simp only [scheduleFlush, hmem, Bool.false_eq_true, if_false] at hok ⊢
  revert hok
  refine startFlush_cases _ task o (fun p => p.2 = .ok () → ∃ st, p.1.status? r = some st)
    (fun _ _ => ?_) (fun _ _ _ h => by cases h) (fun _ _ _ _ h => by cases h) (fun _ _ _ _ _ => ?_)
  · exact ⟨_, status?_setStatus_self _ hentry _⟩
  · exact ⟨_, by simpa using status?_setStatus_self _ (by simpa using hentry) _⟩

lemma status?_of_hasPendingDdls (h : w.hasPendingDdls r = true) :
    ∃ st, w.status? r = some st := by
  unfold hasPendingDdls at h
  split at h
  · exact ⟨_, by assumption⟩
  · cases h

end Worker

/-! ## No sender is lost or answered twice -/

namespace FlushStatus

variable (st : FlushStatus R)

@[simp] lemma waiters_setFlushing (b : Bool) : { st with flushing := b }.waiters = st.waiters := rfl

@[simp] lemma waiters_new : (FlushStatus.new : FlushStatus R).waiters = [] := rfl

lemma waiters_mergeTask (task : RegionFlushTask) :
    (st.mergeTask task).waiters.Perm (st.waiters ++ task.senders) := by
  refine List.perm_iff_count.mpr fun x => ?_
  unfold mergeTask
  split <;> simp_all [waiters, taskSenders, RegionFlushTask.merge, List.count_append] <;> omega

@[simp] lemma pendingRequests_setFlushing (b : Bool) :
    { st with flushing := b }.pendingRequests = st.pendingRequests := rfl

@[simp] lemma pendingRequests_setPendingTask (t : Option RegionFlushTask) :
    { st with pendingTask := t }.pendingRequests = st.pendingRequests := rfl

/-- The senders of handed-back requests. -/
def pendingWaiters : Option (PendingRequests R) → List ℕ
  | some (ddls, writes, bulks) =>
    ddls.map (·.sender) ++ writes.map (·.sender) ++ bulks.map (·.sender)
  | none => []

/-- A status holds its pending task's senders and those of the requests it would hand back. -/
lemma waiters_eq : st.waiters = st.taskSenders ++ pendingWaiters (some st.pendingRequests) := by
  simp [waiters, pendingWaiters, pendingRequests]

lemma taskSenders_of_pendingTask {task : RegionFlushTask} (h : st.pendingTask = some task) :
    st.taskSenders = task.senders := by
  simp [taskSenders, h]

lemma taskSenders_of_pendingTask_none (h : st.pendingTask = none) : st.taskSenders = [] := by
  simp [taskSenders, h]

lemma waiters_pushDdl (d : SenderDdlRequest) :
    { st with pendingDdls := st.pendingDdls ++ [d] }.waiters.Perm (st.waiters ++ [d.sender]) := by
  refine List.perm_iff_count.mpr fun x => ?_
  simp only [waiters, taskSenders, List.map_append, List.map_singleton, List.count_append]
  omega

lemma waiters_pushWrite (q : SenderWriteRequest R) :
    { st with pendingWrites := st.pendingWrites ++ [q] }.waiters.Perm
      (st.waiters ++ [q.sender]) := by
  refine List.perm_iff_count.mpr fun x => ?_
  simp only [waiters, taskSenders, List.map_append, List.map_singleton, List.count_append]
  omega

lemma waiters_pushBulk (q : SenderBulkRequest R) :
    { st with pendingBulkWrites := st.pendingBulkWrites ++ [q] }.waiters.Perm
      (st.waiters ++ [q.sender]) := by
  refine List.perm_iff_count.mpr fun x => ?_
  simp only [waiters, taskSenders, List.map_append, List.map_singleton, List.count_append]
  omega

end FlushStatus

/-- The senders a request brings: those waiting for its answer. -/
def WorkerRequest.senders : WorkerRequest R → List ℕ
  | .flush _ sender _ => sender.toList
  | .alter request _ => [request.sender]
  | .write request => [request.sender]
  | .bulkWrite request => [request.sender]
  | .flushPeriodically .. | .flushFinished .. | .flushFailed .. | .close _ | .drop _
  | .truncate .. => []

/-- Whether a request closes, drops or truncates the region. -/
def WorkerRequest.removesRegion (r : ℕ) : WorkerRequest R → Bool
  | .close r' | .drop r' | .truncate r' _ => r' == r
  | .flush .. | .flushPeriodically .. | .alter .. | .write _ | .bulkWrite _ | .flushFinished ..
  | .flushFailed .. => false

namespace Worker

/-- Every sender the worker holds or has answered, as often as it does: those of the running
jobs, those the statuses hold, and those answered. -/
def waiters (w : Worker R) : List ℕ :=
  w.flushScheduler.scheduler.flatMap FlushJob.senders ++
    Ledger.gather (fun _ st => FlushStatus.waiters st) w.flushScheduler.regionStatus ++
    w.replies.map Prod.fst

variable (w : Worker R) {r : ℕ} {st : FlushStatus R}

@[simp] lemma waiters_reply (senders : List ℕ) (x : Reply) :
    (w.reply senders x).waiters = w.waiters ++ senders := by
  simp [waiters, Function.comp_def]

@[simp] lemma waiters_setVersion (vc : VersionControl R) :
    (w.setVersion r vc).waiters = w.waiters := rfl

lemma waiters_submit (job : FlushJob R) :
    (w.submit job).waiters.Perm (w.waiters ++ job.senders) := by
  refine List.perm_iff_count.mpr fun x => ?_
  simp only [waiters, submit_flushScheduler_scheduler, submit_flushScheduler_regionStatus,
    submit_replies, List.flatMap_append, List.flatMap_singleton, List.count_append]
  omega

lemma waiters_finishJob {j : ℕ} {job : FlushJob R}
    (h : w.flushScheduler.scheduler[j]? = some job) :
    w.waiters.Perm ((w.finishJob j).waiters ++ job.senders) := by
  obtain ⟨hj, rfl⟩ := List.getElem?_eq_some_iff.mp h
  have hperm := (List.getElem_cons_eraseIdx_perm hj).flatMap_right FlushJob.senders
  refine List.perm_iff_count.mpr fun x => ?_
  have hx := hperm.count_eq x
  simp only [List.flatMap_cons, List.count_append] at hx
  simp only [waiters, finishJob_flushScheduler_scheduler, finishJob_flushScheduler_regionStatus,
    finishJob_replies, List.count_append]
  omega

lemma waiters_eraseStatus (h : w.status? r = some st) :
    w.waiters.Perm ((w.eraseStatus r).waiters ++ st.waiters) := by
  refine List.perm_iff_count.mpr fun x => ?_
  have hx := (Ledger.gather_erase (f := fun _ st => FlushStatus.waiters st) h).count_eq x
  simp only [List.count_append] at hx
  simp only [waiters, eraseStatus_flushScheduler_scheduler, eraseStatus_flushScheduler_regionStatus,
    eraseStatus_replies, List.count_append]
  omega

lemma waiters_setStatus (h : w.status? r = some st) (st' : FlushStatus R) :
    ((w.setStatus r st').waiters ++ st.waiters).Perm (w.waiters ++ st'.waiters) := by
  refine List.perm_iff_count.mpr fun x => ?_
  have hx := (Ledger.gather_replace (f := fun _ st => FlushStatus.waiters st) h st').count_eq x
  simp only [List.count_append] at hx
  simp only [waiters, setStatus_flushScheduler_scheduler, setStatus_flushScheduler_regionStatus,
    setStatus_replies, List.count_append]
  omega

lemma waiters_insertStatus (h : w.status? r = none) (st' : FlushStatus R) :
    (w.insertStatus r st').waiters.Perm (w.waiters ++ st'.waiters) := by
  have hr : r ∉ w.flushScheduler.regionStatus := AList.lookup_eq_none.mp h
  refine List.perm_iff_count.mpr fun x => ?_
  simp only [waiters, insertStatus_flushScheduler_scheduler,
    insertStatus_flushScheduler_regionStatus, insertStatus_replies,
    Ledger.gather_insert_of_notMem hr, List.count_append]
  omega

lemma waiters_dropStatus (r : ℕ) : (w.dropStatus r).waiters.Perm w.waiters := by
  cases h : w.status? r with
  | none => rw [dropStatus_of_status?_none w h]
  | some st =>
    rw [dropStatus_of_status? w h, waiters_reply]
    exact (waiters_eraseStatus w h).symm

lemma waiters_entryOrInsert (r : ℕ) : (w.entryOrInsert r).1.waiters.Perm w.waiters := by
  unfold entryOrInsert
  split
  · rfl
  · rename_i h
    simpa using waiters_insertStatus w h .new

variable (task : RegionFlushTask) (o : Outcome)

lemma waiters_startFlush (h : w.status? r = some st) :
    (w.startFlush r st task o).1.waiters.Perm (w.waiters ++ task.senders) := by
  refine startFlush_cases w task o (fun p => p.1.waiters.Perm (w.waiters ++ task.senders))
    (fun _ => ?merged) (fun _ _ _ => ?freezeFailed) (fun _ _ _ _ => ?scheduleFailed)
    (fun _ _ _ _ => ?started)
  case merged =>
    refine List.perm_iff_count.mpr fun x => ?_
    have h₁ := (waiters_setStatus w h (st.mergeTask task)).count_eq x
    have h₂ := (st.waiters_mergeTask task).count_eq x
    simp only [List.count_append] at h₁ h₂ ⊢
    omega
  case freezeFailed => simpa using (waiters_dropStatus w r).append_right task.senders
  case scheduleFailed =>
    have h₁ := (waiters_dropStatus (w.setVersion r (w.versions r).freezeMutable) r).append_right
      task.senders
    rw [waiters_setVersion] at h₁
    simpa only [waiters_reply] using h₁
  case started =>
    -- the task's senders move to the job; the status keeps its own
    have hv : (w.setVersion r (w.versions r).freezeMutable).status? r = some st := by simpa using h
    refine List.perm_iff_count.mpr fun x => ?_
    have h₁ := (waiters_submit ((w.setVersion r (w.versions r).freezeMutable).setStatus r
      { st with flushing := true }) (task.intoFlushJob r (w.versions r).freezeMutable)).count_eq x
    have h₂ := (waiters_setStatus _ hv { st with flushing := true }).count_eq x
    simp only [List.count_append, FlushStatus.waiters_setFlushing, waiters_setVersion,
      RegionFlushTask.intoFlushJob] at h₁ h₂ ⊢
    omega

lemma waiters_scheduleFlush (r : ℕ) :
    (w.scheduleFlush r task o).1.waiters.Perm (w.waiters ++ task.senders) := by
  unfold scheduleFlush
  split
  · simp
  · exact (waiters_startFlush _ task o (status?_entryOrInsert w)).trans
      ((waiters_entryOrInsert w r).append_right _)

lemma waiters_scheduleNextFlush : (w.scheduleNextFlush o).1.waiters.Perm w.waiters := by
  unfold scheduleNextFlush
  split
  · rfl
  · rename_i r st task hfirst
    obtain ⟨hst, htask⟩ := status?_of_firstPending? w hfirst
    -- the pending task leaves the status and comes back through `schedule_flush`
    refine List.perm_iff_count.mpr fun x => ?_
    have h₁ := (waiters_scheduleFlush (w.setStatus r { st with pendingTask := none }) task o
      r).count_eq x
    have h₂ := (waiters_setStatus w hst { st with pendingTask := none }).count_eq x
    rw [FlushStatus.waiters_eq st, FlushStatus.taskSenders_of_pendingTask st htask,
      FlushStatus.waiters_eq { st with pendingTask := none },
      FlushStatus.taskSenders_of_pendingTask_none _ rfl] at h₂
    simp only [List.count_append, List.nil_append, FlushStatus.pendingRequests_setPendingTask]
      at h₁ h₂ ⊢
    omega

lemma waiters_finishStatus {st₀ : FlushStatus R} (h : w.status? r = some st₀) :
    ((w.finishStatus r { st₀ with flushing := false }).1.waiters ++
      FlushStatus.pendingWaiters (w.finishStatus r { st₀ with flushing := false }).2).Perm
      w.waiters := by
  have hst := FlushStatus.waiters_eq st₀
  unfold finishStatus
  split
  · -- no pending task: the status's requests are handed back
    rename_i hnone
    rw [FlushStatus.taskSenders_of_pendingTask_none st₀ (by simpa using hnone)] at hst
    have h₁ := waiters_eraseStatus w h
    rw [hst] at h₁
    simpa using h₁.symm
  · rename_i task htask
    rw [FlushStatus.taskSenders_of_pendingTask st₀ (by simpa using htask)] at hst
    split
    · -- nothing left to flush: the pending task's senders are answered
      have hr : (w.reply task.senders .ok).status? r = some st₀ := by simpa using h
      refine List.perm_iff_count.mpr fun x => ?_
      have h₁ := (waiters_eraseStatus _ hr).count_eq x
      rw [hst] at h₁
      simp only [waiters_reply, List.count_append] at h₁ ⊢
      simp only [FlushStatus.pendingRequests] at h₁ ⊢
      omega
    · -- the status stays, with what it held
      have h₁ := waiters_setStatus w h { st₀ with flushing := false }
      rw [FlushStatus.waiters_setFlushing] at h₁
      simpa [FlushStatus.pendingWaiters] using List.perm_append_right_iff _ |>.mp h₁

lemma waiters_onFlushSuccess (r : ℕ) :
    ((w.onFlushSuccess r o).1.waiters ++ FlushStatus.pendingWaiters (w.onFlushSuccess r o).2).Perm
      w.waiters := by
  unfold onFlushSuccess
  split
  · simp [FlushStatus.pendingWaiters]
  · rename_i st₀ h
    exact ((waiters_scheduleNextFlush _ o).append_right _).trans (waiters_finishStatus w h)

@[simp] lemma waiters_onFailure (st : FlushStatus R) (e : FlushError) :
    (w.onFailure st e).waiters = w.waiters ++ st.waiters := by
  simp [onFailure, FlushStatus.waiters]

lemma waiters_onFlushFailed (r : ℕ) : (w.onFlushFailed r o).waiters.Perm w.waiters := by
  unfold onFlushFailed
  split
  · rfl
  · rename_i st h
    exact (waiters_scheduleNextFlush _ o).trans (by simpa using (waiters_eraseStatus w h).symm)

lemma waiters_removeRegionOnFailure (r : ℕ) (e : FlushError) :
    (w.removeRegionOnFailure r e).waiters.Perm w.waiters := by
  unfold removeRegionOnFailure
  split
  · rfl
  · rename_i st h
    simpa using (waiters_eraseStatus w h).symm

lemma waiters_addPending (h : w.status? r = some st) (push : FlushStatus R → FlushStatus R)
    {added : List ℕ} (hpush : (push st).waiters.Perm (st.waiters ++ added)) :
    (w.addPending r push).waiters.Perm (w.waiters ++ added) := by
  rw [addPending, h]
  refine List.perm_iff_count.mpr fun x => ?_
  have h₁ := (waiters_setStatus w h (push st)).count_eq x
  have h₂ := hpush.count_eq x
  simp only [List.count_append] at h₁ h₂ ⊢
  omega

lemma waiters_handleFlushRequest (r : ℕ) (sender : Option ℕ) :
    (w.handleFlushRequest r sender o).waiters.Perm (w.waiters ++ sender.toList) := by
  unfold handleFlushRequest
  split_ifs
  · simp
  · exact waiters_scheduleFlush w _ o r

lemma waiters_flushPeriodically (r : ℕ) : (w.flushPeriodically r o).waiters.Perm w.waiters := by
  unfold flushPeriodically
  split_ifs
  · rfl
  · simpa using waiters_scheduleFlush w ⟨r, []⟩ o r

lemma waiters_handleAlterRequest (request : SenderDdlRequest) :
    (w.handleAlterRequest request o).waiters.Perm (w.waiters ++ [request.sender]) := by
  unfold handleAlterRequest
  split_ifs with hopen hmem
  · simp
  · have hperm := waiters_scheduleFlush w ⟨request.regionId, []⟩ o request.regionId
    split
    · rename_i w' e heq
      rw [heq] at hperm
      simpa using hperm.append_right [request.sender]
    · -- the alter waits in the status the flush left
      rename_i w' heq
      obtain ⟨st, hst⟩ := status?_scheduleFlush_of_ok w ⟨request.regionId, []⟩ o
        (by simpa using hmem) (by rw [heq])
      rw [heq] at hperm hst
      exact (waiters_addPending w' hst _ (st.waiters_pushDdl request)).trans
        (by simpa using hperm.append_right [request.sender])
  · simp

lemma waiters_handleWriteRequest (request : SenderWriteRequest R) :
    (w.handleWriteRequest request).waiters.Perm (w.waiters ++ [request.sender]) := by
  unfold handleWriteRequest
  split_ifs with hddl
  · obtain ⟨st, hst⟩ := status?_of_hasPendingDdls w hddl
    exact waiters_addPending w hst _ (st.waiters_pushWrite request)
  · simp
  · simp

lemma waiters_handleBulkRequest (request : SenderBulkRequest R) :
    (w.handleBulkRequest request).waiters.Perm (w.waiters ++ [request.sender]) := by
  unfold handleBulkRequest
  split_ifs with hddl
  · obtain ⟨st, hst⟩ := status?_of_hasPendingDdls w hddl
    exact waiters_addPending w hst _ (st.waiters_pushBulk request)
  · simp
  · simp

lemma waiters_handlePendingRequests (pending : PendingRequests R) :
    (w.handlePendingRequests pending o).waiters.Perm
      (w.waiters ++ FlushStatus.pendingWaiters (some pending)) := by
  obtain ⟨ddls, writes, bulks⟩ := pending
  have hddls := Ledger.perm_foldl (fun w ddl => handleAlterRequest w ddl o) waiters
    (fun d => [d.sender]) (fun w d => waiters_handleAlterRequest w o d) ddls w
  have hwrites := Ledger.perm_foldl handleWriteRequest waiters (fun q => [q.sender])
    (fun w q => waiters_handleWriteRequest w q) writes
    (ddls.foldl (fun w ddl => handleAlterRequest w ddl o) w)
  have hbulks := Ledger.perm_foldl handleBulkRequest waiters (fun q => [q.sender])
    (fun w q => waiters_handleBulkRequest w q) bulks
    (writes.foldl handleWriteRequest (ddls.foldl (fun w ddl => handleAlterRequest w ddl o) w))
  unfold handlePendingRequests
  refine hbulks.trans ((hwrites.append_right _).trans ?_)
  simpa [FlushStatus.pendingWaiters, ← List.map_eq_flatMap, List.append_assoc] using
    (hddls.append_right _).append_right _

lemma waiters_handleFlushFinished (job : FlushJob R) (walOk : Bool) :
    (w.handleFlushFinished job walOk o).waiters.Perm (w.waiters ++ job.senders) := by
  unfold handleFlushFinished
  split_ifs
  · simp
  · simp
  · -- the senders of the handed-back requests leave the status and are handled
    set w' := (w.setVersion job.regionId ((w.versions job.regionId).applyEdit job.snapshot)).reply
      job.senders .ok
    have hsuccess := waiters_onFlushSuccess w' o job.regionId
    have hw' : w'.waiters = w.waiters ++ job.senders := by simp [w']
    dsimp only
    split
    · rename_i w'' pending heq
      rw [heq] at hsuccess
      exact (waiters_handlePendingRequests w'' o pending).trans (hw' ▸ hsuccess)
    · rename_i w'' heq
      rw [heq] at hsuccess
      simpa [hw', FlushStatus.pendingWaiters] using hsuccess

lemma waiters_handleFlushFailed (job : FlushJob R) :
    (w.handleFlushFailed job o).waiters.Perm (w.waiters ++ job.senders) := by
  unfold handleFlushFailed
  simpa using waiters_onFlushFailed (w.reply job.senders (.error .flushRegion)) o job.regionId

lemma waiters_handleCloseRequest (r : ℕ) : (w.handleCloseRequest r).waiters.Perm w.waiters := by
  unfold handleCloseRequest
  split_ifs
  · rfl
  · exact waiters_removeRegionOnFailure _ r _

lemma waiters_handleDropRequest (r : ℕ) : (w.handleDropRequest r).waiters.Perm w.waiters := by
  unfold handleDropRequest
  split_ifs
  · rfl
  · exact waiters_removeRegionOnFailure _ r _

lemma waiters_handleTruncateResult (r : ℕ) (all : Bool) :
    (w.handleTruncateResult r all).waiters.Perm w.waiters := by
  unfold handleTruncateResult
  split
  · rfl
  · exact waiters_removeRegionOnFailure _ r _

/-- A request brings its senders, and moves the others from place to place. -/
lemma waiters_step (request : WorkerRequest R) :
    (w.step request).waiters.Perm (w.waiters ++ request.senders) := by
  cases request with
  | flush r sender o => exact waiters_handleFlushRequest w o r sender
  | flushPeriodically r o =>
    simpa [step, WorkerRequest.senders] using waiters_flushPeriodically w o r
  | alter request o => exact waiters_handleAlterRequest w o request
  | write request => exact waiters_handleWriteRequest w request
  | bulkWrite request => exact waiters_handleBulkRequest w request
  | flushFinished j walOk o =>
    simp only [step, WorkerRequest.senders, List.append_nil]
    split
    · -- the finished job's senders pass to the worker's handler
      rename_i job hjob
      exact (waiters_handleFlushFinished _ o job walOk).trans (waiters_finishJob w hjob).symm
    · rfl
  | flushFailed j o =>
    simp only [step, WorkerRequest.senders, List.append_nil]
    split
    · rename_i job hjob
      exact (waiters_handleFlushFailed _ o job).trans (waiters_finishJob w hjob).symm
    · rfl
  | close r => simpa [step, WorkerRequest.senders] using waiters_handleCloseRequest w r
  | drop r => simpa [step, WorkerRequest.senders] using waiters_handleDropRequest w r
  | truncate r all => simpa [step, WorkerRequest.senders] using waiters_handleTruncateResult w r all

@[simp] lemma waiters_start (versions : ℕ → VersionControl R) (regionOpen : ℕ → Bool) :
    (start versions regionOpen).waiters = [] := rfl

/-- A run from any state moves senders and adds those of its requests. -/
lemma waiters_run (w : Worker R) (requests : List (WorkerRequest R)) :
    (w.run requests).waiters.Perm (w.waiters ++ requests.flatMap WorkerRequest.senders) :=
  Ledger.perm_foldl step waiters WorkerRequest.senders waiters_step requests w

end Worker

/-- Over every run of a worker, each sender of a request is held by a running job or a status,
or has been answered, as many times as the requests bring it: none is lost, and none is
answered twice. -/
theorem run_waiters_perm (versions : ℕ → VersionControl R) (regionOpen : ℕ → Bool)
    (requests : List (WorkerRequest R)) :
    ((Worker.start versions regionOpen).run requests).waiters.Perm
      (requests.flatMap WorkerRequest.senders) := by
  simpa using (Worker.start versions regionOpen).waiters_run requests

/-- With distinct senders, no sender gets two answers. -/
theorem run_replies_nodup (versions : ℕ → VersionControl R) (regionOpen : ℕ → Bool)
    (requests : List (WorkerRequest R))
    (hdistinct : (requests.flatMap WorkerRequest.senders).Nodup) :
    (((Worker.start versions regionOpen).run requests).replies.map Prod.fst).Nodup := by
  have hperm := (Worker.start versions regionOpen).waiters_run requests
  have hwaiters := hperm.nodup_iff.mpr (by simpa using hdistinct)
  exact hwaiters.sublist (List.sublist_append_right _ _)

theorem run_replies_nodup_interleaved :
    (interleaved.flatMap WorkerRequest.senders).Nodup ∧
      ((twoRegions.run interleaved).replies.map Prod.fst).Nodup :=
  ⟨by decide, run_replies_nodup _ _ _ (by decide)⟩

/-! ## The scheduler's invariant -/

namespace Worker

/-- The running jobs of a region. -/
def jobsOf (w : Worker R) (r : ℕ) : List (FlushJob R) :=
  w.flushScheduler.scheduler.filter (·.regionId == r)

/-- Whether the region's status says a job of it runs. -/
def flushingAt (w : Worker R) (r : ℕ) : Bool :=
  (w.status? r).any (·.flushing)

/-- What holds of a region between two requests, whether its status is active apart: a region
in the map is open and has memtables, it runs one job if its status is flushing and none
otherwise, and each job flushes frozen memtables of its region, at least one. -/
structure Tracked (w : Worker R) (r : ℕ) : Prop where
  isOpen : ∀ st, w.status? r = some st → w.regionOpen r = true
  memtables : ∀ st, w.status? r = some st → (w.versions r).memtablesEmpty = false
  jobs : (w.jobsOf r).length = if w.flushingAt r then 1 else 0
  snapshot : ∀ job ∈ w.jobsOf r,
    job.snapshot.memtables ≠ [] ∧ job.snapshot.memtables ⊆ (w.versions r).version.immutables

/-- The invariant at a region: it is tracked, and a region in the map is flushing or has a
pending task, as `schedule_next_flush` asserts. -/
structure InvAt (w : Worker R) (r : ℕ) : Prop extends w.Tracked r where
  active : ∀ st, w.status? r = some st → st.flushing = true ∨ st.pendingTask.isSome = true

/-- The invariant of the worker: at every region. -/
def Inv (w : Worker R) : Prop := ∀ r, w.InvAt r

/-- The requests `run_inv` is about: `wal.obsolete` succeeds after a flush, and a region is
closed, dropped or truncated only while no job of it runs. -/
def allowed (w : Worker R) : WorkerRequest R → Bool
  | .flushFinished _ walOk _ => walOk
  | .close r | .drop r | .truncate r _ => (w.jobsOf r).isEmpty
  | .flush .. | .flushPeriodically .. | .alter .. | .write _ | .bulkWrite _ | .flushFailed .. =>
    true

/-- Two workers that agree on a region: its status, version, openness and jobs. -/
structure Agree (w w' : Worker R) (r : ℕ) : Prop where
  status : w'.status? r = w.status? r
  versions : w'.versions r = w.versions r
  regionOpen : w'.regionOpen r = w.regionOpen r
  jobs : w'.jobsOf r = w.jobsOf r

variable {w w' w'' : Worker R} {r r' : ℕ} {st : FlushStatus R}

lemma Agree.rfl' (w : Worker R) (r : ℕ) : Agree w w r := ⟨rfl, rfl, rfl, rfl⟩

lemma Agree.trans (h₁ : Agree w w' r) (h₂ : Agree w' w'' r) : Agree w w'' r :=
  ⟨h₂.status.trans h₁.status, h₂.versions.trans h₁.versions,
    h₂.regionOpen.trans h₁.regionOpen, h₂.jobs.trans h₁.jobs⟩

lemma Agree.flushingAt (h : Agree w w' r) : w'.flushingAt r = w.flushingAt r := by
  simp [Worker.flushingAt, h.status]

lemma Agree.tracked (h : Agree w w' r) (ht : w.Tracked r) : w'.Tracked r where
  isOpen st hst := h.regionOpen ▸ ht.isOpen st (h.status ▸ hst)
  memtables st hst := h.versions ▸ ht.memtables st (h.status ▸ hst)
  jobs := by rw [h.jobs, h.flushingAt]; exact ht.jobs
  snapshot job hjob := h.versions ▸ ht.snapshot job (h.jobs ▸ hjob)

lemma Agree.invAt (h : Agree w w' r) (hi : w.InvAt r) : w'.InvAt r :=
  { h.tracked hi.toTracked with active := fun st hst => hi.active st (h.status ▸ hst) }

/-- A region out of the map with no job keeps the invariant. -/
lemma invAt_of_status_none (hst : w.status? r = none) (hjobs : w.jobsOf r = []) : w.InvAt r where
  isOpen := by simp [hst]
  memtables := by simp [hst]
  jobs := by simp [Worker.flushingAt, hst, hjobs]
  snapshot := by simp [hjobs]
  active := by simp [hst]

/-- The invariant at a region in the map, from what its status says. -/
lemma invAt_of_status (hst : w.status? r = some st) (hopen : w.regionOpen r = true)
    (hmem : (w.versions r).memtablesEmpty = false)
    (hjobs : (w.jobsOf r).length = if st.flushing then 1 else 0)
    (hsnap : ∀ job ∈ w.jobsOf r, job.snapshot.memtables ≠ [] ∧
      job.snapshot.memtables ⊆ (w.versions r).version.immutables)
    (hact : st.flushing = true ∨ st.pendingTask.isSome = true) : w.InvAt r where
  isOpen _ _ := hopen
  memtables _ _ := hmem
  jobs := by simpa [Worker.flushingAt, hst] using hjobs
  snapshot := hsnap
  active st' hst' := by
    rw [hst] at hst'
    cases hst'
    exact hact

lemma Tracked.flushingAt_of_status (hst : w.status? r = some st) :
    w.flushingAt r = st.flushing := by
  simp [Worker.flushingAt, hst]

/-- A tracked region that is not flushing runs no job. -/
lemma Tracked.jobsOf_eq_nil (ht : w.Tracked r) (h : w.flushingAt r = false) : w.jobsOf r = [] := by
  have hjobs := ht.jobs
  rw [h] at hjobs
  exact List.eq_nil_of_length_eq_zero (by simpa using hjobs)

/-- A tracked region without memtables is not in the map, as `schedule_flush` asserts. -/
lemma Tracked.status_none (ht : w.Tracked r) (hmem : (w.versions r).memtablesEmpty = true) :
    w.status? r = none := by
  cases hst : w.status? r with
  | none => rfl
  | some st => simp [ht.memtables st hst] at hmem

@[simp] lemma jobsOf_reply (senders : List ℕ) (x : Reply) :
    (w.reply senders x).jobsOf r = w.jobsOf r := rfl

@[simp] lemma jobsOf_setStatus (st : FlushStatus R) :
    (w.setStatus r' st).jobsOf r = w.jobsOf r := rfl

@[simp] lemma jobsOf_insertStatus (st : FlushStatus R) :
    (w.insertStatus r' st).jobsOf r = w.jobsOf r := rfl

@[simp] lemma jobsOf_eraseStatus : (w.eraseStatus r').jobsOf r = w.jobsOf r := rfl

@[simp] lemma jobsOf_setVersion (vc : VersionControl R) :
    (w.setVersion r' vc).jobsOf r = w.jobsOf r := rfl

lemma jobsOf_submit (job : FlushJob R) :
    (w.submit job).jobsOf r = w.jobsOf r ++ if job.regionId = r then [job] else [] := by
  unfold jobsOf
  split_ifs with h <;> simp [h]

/-- A finished job leaves the jobs of other regions as they were. -/
lemma jobsOf_finishJob_of_ne {j : ℕ} {job : FlushJob R}
    (hjob : w.flushScheduler.scheduler[j]? = some job) (hne : job.regionId ≠ r) :
    (w.finishJob j).jobsOf r = w.jobsOf r := by
  obtain ⟨l₁, l₂, hsplit, herase⟩ := Ledger.exists_eraseIdx_split hjob
  simp only [jobsOf, finishJob_flushScheduler_scheduler, herase]
  rw [hsplit]
  simp [List.filter_append, hne]

/-- A finished job leaves one fewer job of its region. -/
lemma length_jobsOf_finishJob {j : ℕ} {job : FlushJob R}
    (hjob : w.flushScheduler.scheduler[j]? = some job) :
    ((w.finishJob j).jobsOf job.regionId).length + 1 = (w.jobsOf job.regionId).length := by
  obtain ⟨l₁, l₂, hsplit, herase⟩ := Ledger.exists_eraseIdx_split hjob
  simp only [jobsOf, finishJob_flushScheduler_scheduler, herase]
  rw [hsplit]
  simp only [List.filter_append, List.filter_cons, beq_self_eq_true, if_true, List.length_append,
    List.length_cons]
  omega

lemma agree_reply (senders : List ℕ) (x : Reply) (r : ℕ) : Agree w (w.reply senders x) r :=
  ⟨rfl, rfl, rfl, rfl⟩

lemma agree_setVersion (hne : r' ≠ r) (vc : VersionControl R) : Agree w (w.setVersion r vc) r' :=
  ⟨rfl, by simp [hne], rfl, rfl⟩

lemma agree_setStatus (hne : r' ≠ r) (st : FlushStatus R) : Agree w (w.setStatus r st) r' :=
  ⟨by simp [hne], rfl, rfl, rfl⟩

lemma agree_insertStatus (hne : r' ≠ r) (st : FlushStatus R) : Agree w (w.insertStatus r st) r' :=
  ⟨by simp [hne], rfl, rfl, rfl⟩

lemma agree_eraseStatus (hne : r' ≠ r) : Agree w (w.eraseStatus r) r' :=
  ⟨by simp [hne], rfl, rfl, rfl⟩

lemma agree_dropStatus (hne : r' ≠ r) : Agree w (w.dropStatus r) r' := by
  unfold dropStatus
  split
  · exact (agree_eraseStatus hne).trans (agree_reply _ _ _)
  · exact Agree.rfl' w r'

@[simp] lemma status?_dropStatus_self : (w.dropStatus r).status? r = none := by
  unfold dropStatus
  split
  · simp
  · assumption

@[simp] lemma jobsOf_dropStatus : (w.dropStatus r').jobsOf r = w.jobsOf r := by
  unfold dropStatus
  split <;> rfl

@[simp] lemma versions_dropStatus : (w.dropStatus r').versions = w.versions := by
  unfold dropStatus
  split <;> rfl

@[simp] lemma regionOpen_dropStatus : (w.dropStatus r').regionOpen = w.regionOpen := by
  unfold dropStatus
  split <;> rfl

lemma agree_submit {job : FlushJob R} (hne : job.regionId ≠ r') : Agree w (w.submit job) r' :=
  ⟨rfl, rfl, rfl, by simp [jobsOf_submit, hne]⟩

@[simp] lemma status?_onFailure (st : FlushStatus R) (e : FlushError) :
    (w.onFailure st e).status? r = w.status? r := rfl

@[simp] lemma jobsOf_onFailure (st : FlushStatus R) (e : FlushError) :
    (w.onFailure st e).jobsOf r = w.jobsOf r := rfl

lemma agree_onFailure (st : FlushStatus R) (e : FlushError) (r : ℕ) :
    Agree w (w.onFailure st e) r :=
  ⟨rfl, rfl, rfl, rfl⟩

end Worker

namespace Worker

variable {w w' : Worker R} {r r' : ℕ} {st : FlushStatus R} (task : RegionFlushTask) (o : Outcome)

/-- A status replaced by one as flushing keeps its region tracked. -/
lemma Tracked.setStatus (ht : w.Tracked r) (hst : w.status? r = some st) (st' : FlushStatus R)
    (hfl : st'.flushing = st.flushing) : (w.setStatus r st').Tracked r where
  isOpen _ _ := ht.isOpen st hst
  memtables _ _ := ht.memtables st hst
  jobs := by
    rw [jobsOf_setStatus, Tracked.flushingAt_of_status (status?_setStatus_self w hst st'), hfl,
      ← Tracked.flushingAt_of_status hst]
    exact ht.jobs
  snapshot := ht.snapshot

lemma tracked_entryOrInsert (ht : w.Tracked r) (hopen : w.regionOpen r = true)
    (hmem : (w.versions r).memtablesEmpty = false) : (w.entryOrInsert r).1.Tracked r := by
  unfold entryOrInsert
  split
  · exact ht
  · -- a new status is not flushing, and the region had no job
    rename_i hnone
    have hjobs := ht.jobsOf_eq_nil (by simp [flushingAt, hnone])
    refine ⟨fun _ _ => hopen, fun _ _ => hmem, ?_, ?_⟩
    · simp [flushingAt, hjobs, FlushStatus.new]
    · simp [hjobs]

lemma agree_entryOrInsert (hne : r' ≠ r) : Agree w (w.entryOrInsert r).1 r' := by
  unfold entryOrInsert
  split
  · exact Agree.rfl' w r'
  · exact agree_insertStatus hne _

/-- `startFlush` at a tracked open region with memtables leaves the invariant there. -/
lemma invAt_startFlush (ht : w.Tracked r) (hst : w.status? r = some st)
    (hopen : w.regionOpen r = true) (hmem : (w.versions r).memtablesEmpty = false) :
    (w.startFlush r st task o).1.InvAt r := by
  have hfl := Tracked.flushingAt_of_status hst
  refine startFlush_cases w task o (fun p => p.1.InvAt r) (fun hact => ?merged)
    (fun hf _ _ => ?freezeFailed) (fun hf _ _ _ => ?scheduleFailed) (fun hf _ _ _ => ?started)
  case merged =>
    -- the status keeps its flushing, and has a pending task now
    have ht' := ht.setStatus hst (st.mergeTask task)
      (by unfold FlushStatus.mergeTask; split <;> rfl)
    refine { ht' with active := fun st' hst' => .inr ?_ }
    rw [status?_setStatus_self w hst] at hst'
    cases hst'
    unfold FlushStatus.mergeTask
    split <;> rfl
  case freezeFailed =>
    have hjobs := ht.jobsOf_eq_nil (hfl.trans hf)
    exact invAt_of_status_none (by simp) (by simp [hjobs])
  case scheduleFailed =>
    have hjobs := ht.jobsOf_eq_nil (hfl.trans hf)
    exact invAt_of_status_none (by simp) (by simp [hjobs])
  case started =>
    -- the one job of the region flushes the memtables the freeze left
    have hjobs := ht.jobsOf_eq_nil (hfl.trans hf)
    have hvc := (w.versions r).freezeMutable_immutables_ne_nil hmem
    have hst' : (((w.setVersion r (w.versions r).freezeMutable).setStatus r
        { st with flushing := true }).submit
          (task.intoFlushJob r (w.versions r).freezeMutable)).status? r =
        some { st with flushing := true } := by
      simpa using status?_setStatus_self (w.setVersion r _) (by simpa using hst) _
    refine invAt_of_status hst' (by simpa using hopen)
      (by simpa using (w.versions r).freezeMutable_memtablesEmpty hmem)
      (by simp [jobsOf_submit, hjobs, RegionFlushTask.intoFlushJob]) ?_ (.inl rfl)
    intro job hjob
    simp only [jobsOf_submit, jobsOf_setStatus, jobsOf_setVersion, hjobs, List.nil_append,
      RegionFlushTask.intoFlushJob, if_true, List.mem_singleton] at hjob
    subst hjob
    simpa using hvc

lemma agree_startFlush (hne : r' ≠ r) : Agree w (w.startFlush r st task o).1 r' := by
  refine startFlush_cases w task o (fun p => Agree w p.1 r') (fun _ => agree_setStatus hne _)
    (fun _ _ _ => ?_) (fun _ _ _ _ => ?_) (fun _ _ _ _ => ?_)
  · exact (agree_dropStatus hne).trans (agree_reply _ _ _)
  · exact (agree_setVersion hne _).trans ((agree_dropStatus hne).trans (agree_reply _ _ _))
  · exact (agree_setVersion hne _).trans ((agree_setStatus hne _).trans
      (agree_submit (by simpa [RegionFlushTask.intoFlushJob] using hne.symm)))

/-- `schedule_flush` at a tracked open region leaves the invariant there. -/
lemma invAt_scheduleFlush (ht : w.Tracked r) (hopen : w.regionOpen r = true) :
    (w.scheduleFlush r task o).1.InvAt r := by
  unfold scheduleFlush
  split
  · -- nothing to flush: the region is not in the map
    rename_i hmem
    have hnone := ht.status_none hmem
    exact invAt_of_status_none (by simpa using hnone)
      (by simpa using ht.jobsOf_eq_nil (by simp [flushingAt, hnone]))
  · rename_i hmem
    have hmem' : (w.versions r).memtablesEmpty = false := by simpa using hmem
    exact invAt_startFlush task o (tracked_entryOrInsert ht hopen hmem') (status?_entryOrInsert w)
      (by unfold entryOrInsert; split <;> simpa using hopen)
      (by unfold entryOrInsert; split <;> simpa using hmem')

lemma agree_scheduleFlush (hne : r' ≠ r) : Agree w (w.scheduleFlush r task o).1 r' := by
  unfold scheduleFlush
  split
  · exact agree_reply _ _ _
  · exact (agree_entryOrInsert hne).trans (agree_startFlush task o hne)

lemma inv_scheduleFlush (hinv : w.Inv) (hopen : w.regionOpen r = true) :
    (w.scheduleFlush r task o).1.Inv := by
  intro r'
  by_cases hr : r' = r
  · subst hr
    exact invAt_scheduleFlush task o (hinv r').toTracked hopen
  · exact (agree_scheduleFlush task o hr).invAt (hinv r')

/-- `schedule_next_flush` keeps the invariant. -/
lemma inv_scheduleNextFlush (hinv : w.Inv) : (w.scheduleNextFlush o).1.Inv := by
  unfold scheduleNextFlush
  split
  · exact hinv
  · rename_i r st task hfirst
    obtain ⟨hst, -⟩ := status?_of_firstPending? w hfirst
    -- the region gives up its task: it is tracked, though its status may be idle for a moment
    have ht := (hinv r).toTracked.setStatus hst { st with pendingTask := none } rfl
    intro r'
    by_cases hr : r' = r
    · subst hr
      exact invAt_scheduleFlush task o ht (by simpa using (hinv r').isOpen st hst)
    · exact (agree_scheduleFlush task o hr).invAt ((agree_setStatus hr _).invAt (hinv r'))

/-- The state a region is in when its job is over: the invariant holds at every other region,
and the region is open, in the map, and runs no job. -/
structure JobOver (w : Worker R) (r : ℕ) : Prop where
  others : ∀ r', r' ≠ r → w.InvAt r'
  isOpen : w.regionOpen r = true
  jobs : w.jobsOf r = []

lemma JobOver.agree (h : w.JobOver r) (ha : ∀ r', r' ≠ r → Agree w w' r')
    (hopen : w'.regionOpen r = w.regionOpen r) (hjobs : w'.jobsOf r = w.jobsOf r) : w'.JobOver r :=
  ⟨fun r' hr => (ha r' hr).invAt (h.others r' hr), hopen ▸ h.isOpen, hjobs ▸ h.jobs⟩

/-- A region whose job is over, out of the map, keeps the invariant. -/
lemma JobOver.inv_of_status_none (h : w.JobOver r) (hst : w.status? r = none) : w.Inv := by
  intro r'
  by_cases hr : r' = r
  · subst hr
    exact invAt_of_status_none hst h.jobs
  · exact h.others r' hr

lemma agree_finishStatus (hne : r' ≠ r) (st : FlushStatus R) :
    Agree w (w.finishStatus r st).1 r' := by
  unfold finishStatus
  split
  · exact agree_eraseStatus hne
  · split
    · exact (agree_reply _ _ _).trans (agree_eraseStatus hne)
    · exact agree_setStatus hne _

/-- What `on_flush_success` does with the status of a region whose job is over keeps the
invariant: a status that stays has a pending task and memtables. -/
lemma inv_finishStatus {st₀ : FlushStatus R} (h : w.JobOver r) (hst : w.status? r = some st₀) :
    (w.finishStatus r { st₀ with flushing := false }).1.Inv := by
  intro r'
  by_cases hr : r' = r
  · subst hr
    unfold finishStatus
    split
    · exact invAt_of_status_none (by simp) (by simpa using h.jobs)
    · rename_i task htask
      split
      · exact invAt_of_status_none (by simp) (by simpa using h.jobs)
      · rename_i hmem
        exact invAt_of_status (status?_setStatus_self w hst _) (by simpa using h.isOpen)
          (by simpa using hmem) (by simp [h.jobs]) (by simp [h.jobs])
          (.inr (by simp only at htask; simp [htask]))
  · exact (agree_finishStatus hr _).invAt (h.others r' hr)

/-- `on_flush_success` of a region whose job is over keeps the invariant. -/
lemma inv_onFlushSuccess (h : w.JobOver r) : (w.onFlushSuccess r o).1.Inv := by
  unfold onFlushSuccess
  split
  · rename_i hnone
    exact h.inv_of_status_none hnone
  · rename_i st₀ hst
    exact inv_scheduleNextFlush o (inv_finishStatus h hst)

/-- `on_flush_failed` of a region whose job is over keeps the invariant. -/
lemma inv_onFlushFailed (h : w.JobOver r) : (w.onFlushFailed r o).Inv := by
  unfold onFlushFailed
  split
  · rename_i hnone
    exact h.inv_of_status_none hnone
  · rename_i st hst
    refine inv_scheduleNextFlush o (JobOver.inv_of_status_none (r := r) ?_ (by simp))
    exact h.agree (fun r' hr => (agree_eraseStatus hr).trans (agree_onFailure _ _ _)) rfl rfl

/-- `remove_region_on_failure` of a region that runs no job keeps the invariant. -/
lemma inv_removeRegionOnFailure (h : ∀ r', r' ≠ r → w.InvAt r') (hjobs : w.jobsOf r = [])
    (e : FlushError) : (w.removeRegionOnFailure r e).Inv := by
  intro r'
  by_cases hr : r' = r
  · subst hr
    unfold removeRegionOnFailure
    split
    · exact invAt_of_status_none (by assumption) hjobs
    · exact invAt_of_status_none (by simp) (by simpa using hjobs)
  · unfold removeRegionOnFailure
    split
    · exact h r' hr
    · exact ((agree_eraseStatus hr).trans (agree_onFailure _ _ _)).invAt (h r' hr)

/-- A request queued in a status leaves what the invariant reads of it. -/
lemma inv_addPending (hinv : w.Inv) (push : FlushStatus R → FlushStatus R)
    (hpush : ∀ st, (push st).flushing = st.flushing ∧ (push st).pendingTask = st.pendingTask) :
    (w.addPending r push).Inv := by
  unfold addPending
  split
  · rename_i st hst
    intro r'
    by_cases hr : r' = r
    · subst hr
      refine { (hinv r').toTracked.setStatus hst (push st) (hpush st).1 with active := ?_ }
      intro st' hst'
      rw [status?_setStatus_self w hst] at hst'
      cases hst'
      rw [(hpush st).1, (hpush st).2]
      exact (hinv r').active st hst
    · exact (agree_setStatus hr _).invAt (hinv r')
  · exact hinv

lemma inv_reply (hinv : w.Inv) (senders : List ℕ) (x : Reply) : (w.reply senders x).Inv :=
  fun r => (agree_reply senders x r).invAt (hinv r)

/-- A write keeps the memtables of a region in the map, and its frozen ones. -/
lemma inv_setVersion_write (hinv : w.Inv) (r : ℕ) (requests : List (OpType × List R))
    (bulks : List (BulkPart R)) : (w.setVersion r ((w.versions r).write requests bulks)).Inv := by
  intro r'
  by_cases hr : r' = r
  · subst hr
    have hi := hinv r'
    have himm := ((w.versions r').write_version requests bulks).1
    exact
      { isOpen := fun st hst => by simpa using hi.isOpen st (by simpa using hst)
        memtables := fun st hst => by
          simpa using (w.versions r').write_memtablesEmpty (hi.memtables st (by simpa using hst))
            requests bulks
        jobs := by
          have hfl : (w.setVersion r' ((w.versions r').write requests bulks)).flushingAt r' =
              w.flushingAt r' := rfl
          rw [jobsOf_setVersion, hfl]
          exact hi.jobs
        snapshot := fun job hjob => by
          simpa [himm] using hi.snapshot job (by simpa using hjob)
        active := fun st hst => hi.active st (by simpa using hst) }
  · exact (agree_setVersion hr _).invAt (hinv r')

lemma inv_handleFlushRequest (hinv : w.Inv) (r : ℕ) (sender : Option ℕ) :
    (w.handleFlushRequest r sender o).Inv := by
  unfold handleFlushRequest
  split_ifs with hopen
  · exact inv_reply hinv _ _
  · exact inv_scheduleFlush _ o hinv (by simpa using hopen)

lemma inv_flushPeriodically (hinv : w.Inv) (r : ℕ) : (w.flushPeriodically r o).Inv := by
  unfold flushPeriodically
  split_ifs with h
  · exact hinv
  · simp only [Bool.or_eq_true, Bool.not_eq_true', not_or, Bool.not_eq_false] at h
    exact inv_scheduleFlush _ o hinv h.2

lemma inv_handleAlterRequest (hinv : w.Inv) (request : SenderDdlRequest) :
    (w.handleAlterRequest request o).Inv := by
  unfold handleAlterRequest
  split_ifs with hopen hmem
  · exact inv_reply hinv _ _
  · have hflush := inv_scheduleFlush ⟨request.regionId, []⟩ o hinv (by simpa using hopen)
    split
    · rename_i w' e heq
      rw [heq] at hflush
      exact inv_reply hflush _ _
    · rename_i w' heq
      rw [heq] at hflush
      exact inv_addPending hflush _ fun _ => ⟨rfl, rfl⟩
  · exact inv_reply hinv _ _

lemma inv_handleWriteRequest (hinv : w.Inv) (request : SenderWriteRequest R) :
    (w.handleWriteRequest request).Inv := by
  unfold handleWriteRequest
  split_ifs
  · exact inv_addPending hinv _ fun _ => ⟨rfl, rfl⟩
  · exact inv_reply hinv _ _
  · exact inv_reply (inv_setVersion_write hinv _ _ _) _ _

lemma inv_handleBulkRequest (hinv : w.Inv) (request : SenderBulkRequest R) :
    (w.handleBulkRequest request).Inv := by
  unfold handleBulkRequest
  split_ifs
  · exact inv_addPending hinv _ fun _ => ⟨rfl, rfl⟩
  · exact inv_reply hinv _ _
  · exact inv_reply (inv_setVersion_write hinv _ _ _) _ _

lemma inv_handlePendingRequests (hinv : w.Inv) (pending : PendingRequests R) :
    (w.handlePendingRequests pending o).Inv := by
  obtain ⟨ddls, writes, bulks⟩ := pending
  have hddls := Ledger.invariant_foldl Inv (fun w ddl => handleAlterRequest w ddl o)
    (fun w d hw => inv_handleAlterRequest o hw d) ddls hinv
  have hwrites := Ledger.invariant_foldl Inv handleWriteRequest
    (fun w q hw => inv_handleWriteRequest hw q) writes hddls
  exact Ledger.invariant_foldl Inv handleBulkRequest (fun w q hw => inv_handleBulkRequest hw q)
    bulks hwrites

/-- A region with a running job is flushing, and that job is its only one. -/
lemma flushingAt_of_job (hinv : w.Inv) {j : ℕ} {job : FlushJob R}
    (hjob : w.flushScheduler.scheduler[j]? = some job) :
    w.flushingAt job.regionId = true ∧ (w.jobsOf job.regionId).length = 1 := by
  have hcount := length_jobsOf_finishJob hjob
  have hjobs := (hinv job.regionId).jobs
  cases hfl : w.flushingAt job.regionId
  · simp only [hfl, Bool.false_eq_true, if_false] at hjobs
    omega
  · simpa [hfl] using hjobs

/-- The job at `j` is over: its region runs no other. -/
lemma jobOver_finishJob (hinv : w.Inv) {j : ℕ} {job : FlushJob R}
    (hjob : w.flushScheduler.scheduler[j]? = some job) : (w.finishJob j).JobOver job.regionId := by
  have hcount := length_jobsOf_finishJob hjob
  obtain ⟨hflushing, hone⟩ := flushingAt_of_job hinv hjob
  obtain ⟨st, hst, -⟩ := (Option.any_eq_true _ _).mp hflushing
  refine ⟨fun r' hr => ?_, (hinv job.regionId).isOpen st hst,
    List.eq_nil_of_length_eq_zero (by omega)⟩
  have hagree : Agree w (w.finishJob j) r' :=
    ⟨rfl, rfl, rfl, jobsOf_finishJob_of_ne hjob (Ne.symm hr)⟩
  exact hagree.invAt (hinv r')

lemma inv_handleFlushFinished {job : FlushJob R} (h : w.JobOver job.regionId) :
    (w.handleFlushFinished job true o).Inv := by
  unfold handleFlushFinished
  rw [if_neg (by simp [h.isOpen])]
  simp only [Bool.not_true, Bool.false_eq_true, if_false]
  -- the version drops the flushed memtables and the senders are answered
  have hover : ((w.setVersion job.regionId ((w.versions job.regionId).applyEdit job.snapshot)).reply
      job.senders .ok).JobOver job.regionId :=
    h.agree (fun r' hr => (agree_setVersion hr _).trans (agree_reply _ _ _)) rfl rfl
  have hsuccess := inv_onFlushSuccess o hover
  split
  · rename_i w' pending heq
    rw [heq] at hsuccess
    exact inv_handlePendingRequests o hsuccess pending
  · rename_i w' heq
    rw [heq] at hsuccess
    exact hsuccess

lemma inv_handleFlushFailed {job : FlushJob R} (h : w.JobOver job.regionId) :
    (w.handleFlushFailed job o).Inv :=
  inv_onFlushFailed o (h.agree (fun _ _ => agree_reply _ _ _) rfl rfl)

/-- Closing or dropping a region leaves the other regions' openness. -/
lemma agree_closeRegion (hne : r' ≠ r) :
    Agree w { w with regionOpen := Function.update w.regionOpen r false } r' :=
  ⟨rfl, rfl, by simp [hne], rfl⟩

lemma inv_handleCloseRequest (hinv : w.Inv) (hjobs : w.jobsOf r = []) :
    (w.handleCloseRequest r).Inv := by
  unfold handleCloseRequest
  split_ifs
  · exact hinv
  · exact inv_removeRegionOnFailure (fun r' hr => (agree_closeRegion hr).invAt (hinv r')) hjobs _

lemma inv_handleDropRequest (hinv : w.Inv) (hjobs : w.jobsOf r = []) :
    (w.handleDropRequest r).Inv := by
  unfold handleDropRequest
  split_ifs
  · exact hinv
  · exact inv_removeRegionOnFailure (fun r' hr => (agree_closeRegion hr).invAt (hinv r')) hjobs _

lemma inv_handleTruncateResult (hinv : w.Inv) (hjobs : w.jobsOf r = []) (all : Bool) :
    (w.handleTruncateResult r all).Inv := by
  unfold handleTruncateResult
  split
  · exact hinv
  · exact inv_removeRegionOnFailure (fun r' hr => (agree_setVersion hr _).invAt (hinv r'))
      (by simpa using hjobs) _

/-- Every allowed request keeps the invariant. -/
lemma inv_step (hinv : w.Inv) (request : WorkerRequest R) (hallowed : w.allowed request = true) :
    (w.step request).Inv := by
  cases request with
  | flush r sender o => exact inv_handleFlushRequest o hinv r sender
  | flushPeriodically r o => exact inv_flushPeriodically o hinv r
  | alter request o => exact inv_handleAlterRequest o hinv request
  | write request => exact inv_handleWriteRequest hinv request
  | bulkWrite request => exact inv_handleBulkRequest hinv request
  | flushFinished j walOk o =>
    simp only [allowed] at hallowed
    subst hallowed
    simp only [step]
    split
    · rename_i job hjob
      exact inv_handleFlushFinished o (jobOver_finishJob hinv hjob)
    · exact hinv
  | flushFailed j o =>
    simp only [step]
    split
    · rename_i job hjob
      exact inv_handleFlushFailed o (jobOver_finishJob hinv hjob)
    · exact hinv
  | close r => exact inv_handleCloseRequest hinv (by simpa [allowed] using hallowed)
  | drop r => exact inv_handleDropRequest hinv (by simpa [allowed] using hallowed)
  | truncate r all => exact inv_handleTruncateResult hinv (by simpa [allowed] using hallowed) all

lemma inv_start (versions : ℕ → VersionControl R) (regionOpen : ℕ → Bool) :
    (start versions regionOpen).Inv :=
  fun _ => invAt_of_status_none (AList.lookup_empty _) rfl

end Worker

/-- In every run where `wal.obsolete` succeeds and no region is closed, dropped or truncated
while a job of it runs, the invariant holds after every request. -/
theorem run_inv (versions : ℕ → VersionControl R) (regionOpen : ℕ → Bool)
    (requests : List (WorkerRequest R))
    (hrun : Ledger.AllowedRun Worker.step (fun w e => w.allowed e = true)
      (Worker.start versions regionOpen) requests) :
    ((Worker.start versions regionOpen).run requests).Inv :=
  Ledger.AllowedRun.invariant Worker.Inv (fun _ e hw he => Worker.inv_step hw e he)
    (Worker.inv_start versions regionOpen) hrun

/-- In every allowed run, a region in the map is flushing or has a pending task, has memtables,
and runs one job if it is flushing and none otherwise. -/
theorem run_status_active (versions : ℕ → VersionControl R) (regionOpen : ℕ → Bool)
    (requests : List (WorkerRequest R))
    (hrun : Ledger.AllowedRun Worker.step (fun w e => w.allowed e = true)
      (Worker.start versions regionOpen) requests)
    {r : ℕ} {st : FlushStatus R}
    (hst : ((Worker.start versions regionOpen).run requests).status? r = some st) :
    (st.flushing = true ∨ st.pendingTask.isSome = true) ∧
      (((Worker.start versions regionOpen).run requests).versions r).memtablesEmpty = false ∧
      (((Worker.start versions regionOpen).run requests).jobsOf r).length =
        if st.flushing then 1 else 0 := by
  have hi := run_inv versions regionOpen requests hrun r
  refine ⟨hi.active st hst, hi.memtables st hst, ?_⟩
  rw [hi.jobs, Worker.Tracked.flushingAt_of_status hst]

/-- The interleaved run is one the invariant covers; region 2 waits with a pending task. -/
theorem run_status_active_interleaved :
    Ledger.AllowedRun Worker.step (fun w e => w.allowed e = true) twoRegions interleaved ∧
      (twoRegions.run interleaved).status? 2 = some ⟨false, some ⟨2, [23]⟩, [], [], []⟩ ∧
      ((false = true ∨ (some (⟨2, [23]⟩ : RegionFlushTask)).isSome = true) ∧
        ((twoRegions.run interleaved).versions 2).memtablesEmpty = false ∧
        ((twoRegions.run interleaved).jobsOf 2).length = if false then 1 else 0) := by
  have hrun : Ledger.AllowedRun Worker.step (fun w e => w.allowed e = true) twoRegions
      interleaved := by decide
  have hst : (twoRegions.run interleaved).status? 2 = some ⟨false, some ⟨2, [23]⟩, [], [], []⟩ := by
    decide
  exact ⟨hrun, hst, run_status_active _ _ _ hrun hst⟩

/-! ## What the assertions of `schedule_next_flush` miss -/

namespace Worker

variable {w : Worker R} {r : ℕ} {st : FlushStatus R}

lemma setStatus_self (h : w.status? r = some st) : w.setStatus r st = w := by
  simp only [setStatus, Ledger.replace_self h]

lemma setStatus_setStatus (h : w.status? r = some st) (st₁ st₂ : FlushStatus R) :
    (w.setStatus r st₁).setStatus r st₂ = w.setStatus r st₂ := by
  simp only [setStatus, Ledger.replace_replace h]

end Worker

/-- The second assertion of `schedule_next_flush` does not hold: when the first region of the
map with a pending task is flushing, its task is merged back and nothing else happens.  A
region behind it that waits with a pending task and no job keeps waiting. -/
theorem scheduleNextFlush_of_first_flushing (w : Worker R) (o : Outcome) {r : ℕ}
    {st : FlushStatus R} {task : RegionFlushTask}
    (hfirst : w.firstPending? o.statusOrder = some (r, st, task))
    (hflushing : st.flushing = true) (hmem : (w.versions r).memtablesEmpty = false) :
    w.scheduleNextFlush o = (w, .ok ()) := by
  obtain ⟨hst, htask⟩ := Worker.status?_of_firstPending? w hfirst
  have hst' := Worker.status?_setStatus_self w hst { st with pendingTask := none }
  -- the task goes back into the status it came from
  have hmerge : { st with pendingTask := none }.mergeTask task = st := by
    cases st
    simp_all [FlushStatus.mergeTask]
  -- the region has memtables and a status, which is flushing: the task is merged back
  rw [Worker.scheduleNextFlush, hfirst]
  dsimp only
  rw [Worker.scheduleFlush, if_neg (by simpa using hmem)]
  dsimp only
  rw [Worker.entryOrInsert, hst']
  dsimp only
  rw [Worker.startFlush, if_pos hflushing, hmerge, Worker.setStatus_setStatus hst,
    Worker.setStatus_self hst]

theorem scheduleNextFlush_of_first_flushing_interleaved :
    (twoRegions.run interleaved).firstPending? [1, 2] =
        some (1, ⟨true, some ⟨1, [22]⟩, [], [], []⟩, ⟨1, [22]⟩) ∧
      ((twoRegions.run interleaved).versions 1).memtablesEmpty = false ∧
      (twoRegions.run interleaved).status? 2 = some ⟨false, some ⟨2, [23]⟩, [], [], []⟩ ∧
      (twoRegions.run interleaved).jobsOf 2 = [] ∧
      (twoRegions.run interleaved).scheduleNextFlush ⟨true, true, [1, 2]⟩ =
        (twoRegions.run interleaved, .ok ()) := by
  have hfirst : (twoRegions.run interleaved).firstPending? [1, 2] =
      some (1, ⟨true, some ⟨1, [22]⟩, [], [], []⟩, ⟨1, [22]⟩) := by decide
  have hmem : ((twoRegions.run interleaved).versions 1).memtablesEmpty = false := by decide
  exact ⟨hfirst, hmem, by decide, by decide,
    scheduleNextFlush_of_first_flushing _ ⟨true, true, [1, 2]⟩ hfirst rfl hmem⟩

namespace Worker

/-- A region stuck flushing: its status says a job runs, and none does. -/
structure Stuck (w : Worker R) (r : ℕ) : Prop where
  flushing : w.flushingAt r = true
  jobs : w.jobsOf r = []

variable {w : Worker R} {r r' : ℕ} {st : FlushStatus R} (task : RegionFlushTask) (o : Outcome)

lemma Stuck.of_eq {w' : Worker R} (hs : w.Stuck r) (hst : w'.status? r = w.status? r)
    (hjobs : w'.jobsOf r = w.jobsOf r) : w'.Stuck r :=
  ⟨by simpa [flushingAt, hst] using hs.flushing, hjobs ▸ hs.jobs⟩

lemma Agree.stuck {w' : Worker R} (h : Agree w w' r) (hs : w.Stuck r) : w'.Stuck r :=
  hs.of_eq h.status h.jobs

lemma Stuck.status (hs : w.Stuck r) : ∃ st, w.status? r = some st ∧ st.flushing = true :=
  (Option.any_eq_true _ _).mp hs.flushing

lemma Stuck.reply (hs : w.Stuck r) (senders : List ℕ) (x : Reply) : (w.reply senders x).Stuck r :=
  hs.of_eq rfl rfl

lemma Stuck.setVersion (hs : w.Stuck r) (r' : ℕ) (vc : VersionControl R) :
    (w.setVersion r' vc).Stuck r :=
  hs.of_eq rfl rfl

lemma Stuck.setStatus (hs : w.Stuck r) (st' : FlushStatus R) (hfl : st'.flushing = true) :
    (w.setStatus r' st').Stuck r := by
  by_cases hr : r = r'
  · subst hr
    obtain ⟨st, hst, -⟩ := hs.status
    exact ⟨by simp [flushingAt, status?_setStatus_self w hst, hfl], hs.jobs⟩
  · exact (agree_setStatus hr st').stuck hs

/-- A region stuck flushing takes every task as pending: `schedule_flush` starts no job of it. -/
lemma Stuck.scheduleFlush (hs : w.Stuck r) (r' : ℕ) : (w.scheduleFlush r' task o).1.Stuck r := by
  by_cases hr : r = r'
  · subst hr
    obtain ⟨st, hst, hfl⟩ := hs.status
    unfold Worker.scheduleFlush
    split
    · exact hs.reply _ _
    · rw [show w.entryOrInsert r = (w, st) by simp [entryOrInsert, hst]]
      dsimp only
      rw [Worker.startFlush, if_pos hfl]
      exact hs.setStatus _ (by unfold FlushStatus.mergeTask; split <;> exact hfl)
  · exact (agree_scheduleFlush task o hr).stuck hs

lemma Stuck.scheduleNextFlush (hs : w.Stuck r) : (w.scheduleNextFlush o).1.Stuck r := by
  unfold Worker.scheduleNextFlush
  split
  · exact hs
  · rename_i r' st task hfirst
    obtain ⟨hst, -⟩ := status?_of_firstPending? w hfirst
    -- the region keeps its flushing when it gives up its pending task
    have hs' : (w.setStatus r' { st with pendingTask := none }).Stuck r := by
      by_cases hr : r = r'
      · subst hr
        obtain ⟨st₀, hst₀, hfl⟩ := hs.status
        rw [hst] at hst₀
        cases hst₀
        exact hs.setStatus _ hfl
      · exact (agree_setStatus hr _).stuck hs
    exact hs'.scheduleFlush task o r'

lemma Stuck.addPending (hs : w.Stuck r) (push : FlushStatus R → FlushStatus R)
    (hpush : ∀ st, (push st).flushing = st.flushing) : (w.addPending r' push).Stuck r := by
  unfold Worker.addPending
  split
  · rename_i st hst
    by_cases hr : r = r'
    · subst hr
      obtain ⟨st₀, hst₀, hfl⟩ := hs.status
      rw [hst] at hst₀
      cases hst₀
      exact hs.setStatus _ ((hpush st).trans hfl)
    · exact (agree_setStatus hr _).stuck hs
  · exact hs

lemma Stuck.onFlushSuccess (hs : w.Stuck r) (hne : r ≠ r') :
    (w.onFlushSuccess r' o).1.Stuck r := by
  unfold Worker.onFlushSuccess
  split
  · exact hs
  · exact ((agree_finishStatus hne _).stuck hs).scheduleNextFlush o

lemma Stuck.onFlushFailed (hs : w.Stuck r) (hne : r ≠ r') : (w.onFlushFailed r' o).Stuck r := by
  unfold Worker.onFlushFailed
  split
  · exact hs
  · exact ((agree_eraseStatus hne).trans (agree_onFailure _ _ _)).stuck hs |>.scheduleNextFlush o

lemma Stuck.removeRegionOnFailure (hs : w.Stuck r) (hne : r ≠ r') (e : FlushError) :
    (w.removeRegionOnFailure r' e).Stuck r := by
  unfold Worker.removeRegionOnFailure
  split
  · exact hs
  · exact ((agree_eraseStatus hne).trans (agree_onFailure _ _ _)).stuck hs

lemma Stuck.handleAlterRequest (hs : w.Stuck r) (request : SenderDdlRequest) :
    (w.handleAlterRequest request o).Stuck r := by
  unfold Worker.handleAlterRequest
  split_ifs
  · exact hs.reply _ _
  · have hflush := hs.scheduleFlush ⟨request.regionId, []⟩ o request.regionId
    split
    · rename_i w' e heq
      rw [heq] at hflush
      exact hflush.reply _ _
    · rename_i w' heq
      rw [heq] at hflush
      exact hflush.addPending _ fun _ => rfl
  · exact hs.reply _ _

lemma Stuck.handleWriteRequest (hs : w.Stuck r) (request : SenderWriteRequest R) :
    (w.handleWriteRequest request).Stuck r := by
  unfold Worker.handleWriteRequest
  split_ifs
  · exact hs.addPending _ fun _ => rfl
  · exact hs.reply _ _
  · exact (hs.setVersion _ _).reply _ _

lemma Stuck.handleBulkRequest (hs : w.Stuck r) (request : SenderBulkRequest R) :
    (w.handleBulkRequest request).Stuck r := by
  unfold Worker.handleBulkRequest
  split_ifs
  · exact hs.addPending _ fun _ => rfl
  · exact hs.reply _ _
  · exact (hs.setVersion _ _).reply _ _

lemma Stuck.handlePendingRequests (hs : w.Stuck r) (pending : PendingRequests R) :
    (w.handlePendingRequests pending o).Stuck r := by
  obtain ⟨ddls, writes, bulks⟩ := pending
  have hddls := Ledger.invariant_foldl (Stuck · r) (fun w ddl => Worker.handleAlterRequest w ddl o)
    (fun _ d hw => hw.handleAlterRequest o d) ddls hs
  have hwrites := Ledger.invariant_foldl (Stuck · r) Worker.handleWriteRequest
    (fun _ q hw => hw.handleWriteRequest q) writes hddls
  exact Ledger.invariant_foldl (Stuck · r) Worker.handleBulkRequest
    (fun _ q hw => hw.handleBulkRequest q) bulks hwrites

/-- Another region's job finishing leaves the region stuck. -/
lemma Stuck.handleFlushFinished (hs : w.Stuck r) {job : FlushJob R} (hne : r ≠ job.regionId)
    (walOk : Bool) : (w.handleFlushFinished job walOk o).Stuck r := by
  unfold Worker.handleFlushFinished
  split_ifs
  · exact hs.reply _ _
  · exact (hs.setVersion _ _).reply _ _
  · have hsuccess := ((hs.setVersion job.regionId
      ((w.versions job.regionId).applyEdit job.snapshot)).reply job.senders .ok).onFlushSuccess o
        hne
    dsimp only
    split
    · rename_i w' pending heq
      rw [heq] at hsuccess
      exact hsuccess.handlePendingRequests o pending
    · rename_i w' heq
      rw [heq] at hsuccess
      exact hsuccess

/-- Every job that runs is another region's. -/
lemma Stuck.ne_of_job (hs : w.Stuck r) {j : ℕ} {job : FlushJob R}
    (hjob : w.flushScheduler.scheduler[j]? = some job) : r ≠ job.regionId := by
  rintro rfl
  have hmem : job ∈ w.jobsOf job.regionId :=
    List.mem_filter.mpr ⟨List.mem_of_getElem? hjob, by simp⟩
  simp [hs.jobs] at hmem

lemma Stuck.finishJob (hs : w.Stuck r) {j : ℕ} {job : FlushJob R}
    (hjob : w.flushScheduler.scheduler[j]? = some job) : (w.finishJob j).Stuck r :=
  hs.of_eq rfl (jobsOf_finishJob_of_ne hjob (hs.ne_of_job hjob).symm)

/-- A region stuck flushing stays so through every request that does not close, drop or
truncate it. -/
lemma Stuck.step (hs : w.Stuck r) (request : WorkerRequest R)
    (hkeep : request.removesRegion r = false) : (w.step request).Stuck r := by
  cases request with
  | flush r' sender o =>
    simp only [Worker.step]
    unfold Worker.handleFlushRequest
    split_ifs
    · exact hs.reply _ _
    · exact hs.scheduleFlush _ o r'
  | flushPeriodically r' o =>
    simp only [Worker.step]
    unfold Worker.flushPeriodically
    split_ifs
    · exact hs
    · exact hs.scheduleFlush _ o r'
  | alter request o => exact hs.handleAlterRequest o request
  | write request => exact hs.handleWriteRequest request
  | bulkWrite request => exact hs.handleBulkRequest request
  | flushFinished j walOk o =>
    simp only [Worker.step]
    split
    · rename_i job hjob
      exact (hs.finishJob hjob).handleFlushFinished o (hs.ne_of_job hjob) walOk
    · exact hs
  | flushFailed j o =>
    simp only [Worker.step]
    split
    · rename_i job hjob
      exact ((hs.finishJob hjob).reply _ _).onFlushFailed o (hs.ne_of_job hjob)
    · exact hs
  | close r' =>
    have hne : r ≠ r' := fun h => by simp [WorkerRequest.removesRegion, h] at hkeep
    simp only [Worker.step]
    unfold Worker.handleCloseRequest Worker.onRegionClosed
    split_ifs
    · exact hs
    · refine Stuck.removeRegionOnFailure ?_ hne _
      exact hs.of_eq rfl rfl
  | drop r' =>
    have hne : r ≠ r' := fun h => by simp [WorkerRequest.removesRegion, h] at hkeep
    simp only [Worker.step]
    unfold Worker.handleDropRequest Worker.onRegionDropped
    split_ifs
    · exact hs
    · refine Stuck.removeRegionOnFailure ?_ hne _
      exact hs.of_eq rfl rfl
  | truncate r' all =>
    have hne : r ≠ r' := fun h => by simp [WorkerRequest.removesRegion, h] at hkeep
    simp only [Worker.step]
    unfold Worker.handleTruncateResult
    split
    · exact hs
    · exact (hs.setVersion _ _).removeRegionOnFailure hne _

lemma Stuck.run (hs : w.Stuck r) (requests : List (WorkerRequest R))
    (hkeep : ∀ e ∈ requests, e.removesRegion r = false) : (w.run requests).Stuck r := by
  induction requests generalizing w with
  | nil => exact hs
  | cons e es ih =>
    exact ih (hs.step e (hkeep e (List.mem_cons_self ..))) fun e' he' =>
      hkeep e' (List.mem_cons_of_mem _ he')

/-- A job that finishes with `wal.obsolete` failing leaves its region stuck flushing. -/
lemma stuck_obsoleteWal (hinv : w.Inv) {j : ℕ} {job : FlushJob R}
    (hjob : w.flushScheduler.scheduler[j]? = some job) :
    (w.step (.flushFinished j false o)).Stuck job.regionId := by
  have hover := jobOver_finishJob hinv hjob
  have hs : (w.finishJob j).Stuck job.regionId := ⟨(flushingAt_of_job hinv hjob).1, hover.jobs⟩
  simp only [step, hjob]
  unfold handleFlushFinished
  rw [if_neg (by simpa using hover.isOpen)]
  exact (hs.setVersion _ _).reply _ _

end Worker

/-- A failed `wal.obsolete` after a flush leaves its region flushing with no job, for good: over
every later run that does not close, drop or truncate the region, no job of it starts, and
every flush asked of it waits as a pending task. -/
theorem obsoleteWal_stalls (versions : ℕ → VersionControl R) (regionOpen : ℕ → Bool)
    (pre : List (WorkerRequest R))
    (hpre : Ledger.AllowedRun Worker.step (fun w e => w.allowed e = true)
      (Worker.start versions regionOpen) pre)
    {j : ℕ} {job : FlushJob R}
    (hjob : ((Worker.start versions regionOpen).run pre).flushScheduler.scheduler[j]? = some job)
    (o : Outcome) (post : List (WorkerRequest R))
    (hpost : ∀ e ∈ post, e.removesRegion job.regionId = false) :
    ((Worker.start versions regionOpen).run
        (pre ++ WorkerRequest.flushFinished j false o :: post)).flushingAt job.regionId = true ∧
      ((Worker.start versions regionOpen).run
        (pre ++ WorkerRequest.flushFinished j false o :: post)).jobsOf job.regionId = [] := by
  have hinv := run_inv versions regionOpen pre hpre
  have hs := (Worker.stuck_obsoleteWal o hinv hjob).run post hpost
  simp only [Worker.run, List.foldl_append, List.foldl_cons] at hs ⊢
  exact ⟨hs.flushing, hs.jobs⟩

theorem obsoleteWal_stalls_region1 :
    (twoRegions.run
        (flushedOnce ++ .flushFinished 0 false ⟨true, true, []⟩ :: flushedAgain)).flushingAt 1 = true ∧
      (twoRegions.run
        (flushedOnce ++ .flushFinished 0 false ⟨true, true, []⟩ :: flushedAgain)).jobsOf 1 = [] :=
  @obsoleteWal_stalls ℕ _ _ _ (by decide) 0 ⟨1, [20], ⟨[⟨0, [⟨10, .put, 1⟩]⟩], 1, 1⟩⟩
    (by decide) _ _ (by decide)

end Flush

end Greptime
