import Greptime.Procedure.Store

/-!
# Running and recovering a procedure (`common_procedure::local`)

A `Runner` executes a root procedure in `execute_once_with_retry`: each round calls
`execute_once`, which executes the procedure or rolls it back according to its state and
writes to the procedure store.  Every write is made at the runner's `step` and increments it:
`persist_procedure` a step key, `commit_procedure` a commit key, and
`write_rollback_procedure_state` a rollback key.  When the loop returns the procedure's keys are
deleted.

`LocalManager::recover` loads the store after a restart and submits a runner for each root
procedure it finds, at the step of the message it loaded, rolling back or running; a finished
procedure's keys are deleted.  A runner recovered from the step key of step `s` writes its
next key at `s` again, so a commit or rollback key of the same step as the step key can
follow; which of the two the next recovery keeps is up to the order the store lists them in.

The system is a `Manager`: the store and the runners, with the events `submit`, `round`,
`finish`, `crash` and `recover`.  What the procedure does in a round, whether each write of the
store succeeds and whether a rollback succeeds are the environment's answers in the event.
`manager_resumes_committed_procedure` is a run of six events after which a procedure whose
commit key is in the store is running again.

Subprocedures, poison keys and the manager's own stop are left out: the procedure is a root
without subprocedures whose `clean_poisons` has no key to clean.
-/

namespace Greptime

/-- What `Procedure::execute` answers: a `Status`, or an error that may be retried later. -/
inductive ExecOutcome
  | executing (persist : Bool)
  | done
  | poisoned
  | retryLater
  | error
  deriving DecidableEq, Repr

/-- `ProcedureState`, without the errors it carries. -/
inductive ProcedureState
  | running
  | retrying
  | prepareRollback
  | rollingBack
  | done
  | failed
  | poisoned
  deriving DecidableEq, Repr

/-- The environment's answers in one round: what `execute` returns and the data the procedure
dumps after it, whether the write of the round succeeds (a failed dump counts as a failed
write), and whether `Procedure::rollback` succeeds. -/
structure Round (D : Type) where
  outcome : ExecOutcome
  data : D
  putOk : Bool
  rollbackOk : Bool

/-- `Runner`: the procedure's id and data, the step of its next write, its state and the
retry counters of `execute_once_with_retry`. -/
structure Runner (D : Type) where
  procedureId : ℕ
  data : D
  step : ℕ
  state : ProcedureState
  retryTimes : ℕ
  rollbackTimes : ℕ
  deriving DecidableEq, Repr

/-- What the procedure's type and the manager's configuration fix: `max_retry_times` of both
backoffs and `rollback_supported`. -/
structure RunnerConfig where
  maxRetryTimes : ℕ
  rollbackSupported : Bool

namespace Runner

variable {D : Type} (config : RunnerConfig)

/-- `Runner::execute_once` for a root procedure: the runner and the store after it. -/
def executeOnce (r : Runner D) (store : ProcedureStore D) (round : Round D) :
    Runner D × ProcedureStore D :=
  match r.state with
  | .running | .retrying =>
    let r := { r with data := round.data }
    match round.outcome with
    | .executing persist =>
      if persist then
        if round.putOk then
          ({ r with step := r.step + 1 }, store.storeProcedure r.procedureId r.step r.data none)
        else ({ r with state := .retrying }, store)
      else (r, store)
    | .done =>
      if round.putOk then
        ({ r with step := r.step + 1, state := .done }, store.commitProcedure r.procedureId r.step)
      else ({ r with state := .retrying }, store)
    | .poisoned => ({ r with state := .poisoned }, store)
    | .retryLater => ({ r with state := .retrying }, store)
    | .error => ({ r with state := .prepareRollback }, store)
  | .prepareRollback =>
    if round.putOk then
      ({ r with
          step := r.step + 1
          state := if config.rollbackSupported then .rollingBack else .failed },
        store.rollbackProcedure r.procedureId ⟨r.data, none, r.step⟩)
    else (r, store)
  | .rollingBack =>
    if config.rollbackSupported ∧ ¬round.rollbackOk then (r, store)
    else ({ r with state := .failed }, store)
  | .done | .failed | .poisoned => (r, store)

/-- One round of the loop of `Runner::execute_once_with_retry`, or `none` once the loop has
returned.  A retry past `max_retry_times` turns to rolling back and a rollback past it fails
the procedure. -/
def iterate (r : Runner D) (store : ProcedureStore D) (round : Round D) :
    Option (Runner D × ProcedureStore D) :=
  match r.state with
  | .running => some (executeOnce config r store round)
  | .retrying =>
    let r := { r with retryTimes := r.retryTimes + 1 }
    if r.retryTimes ≤ config.maxRetryTimes then some (executeOnce config r store round)
    else some (executeOnce config { r with state := .prepareRollback } store round)
  | .prepareRollback | .rollingBack =>
    let r := { r with rollbackTimes := r.rollbackTimes + 1 }
    if r.rollbackTimes ≤ config.maxRetryTimes then some (executeOnce config r store round)
    else some ({ r with state := .failed }, store)
  | .done | .failed | .poisoned => none

/-- A runner submitted by `submit_root` at a step and in a state. -/
def new (procedureId : ℕ) (data : D) (step : ℕ) (state : ProcedureState) : Runner D :=
  ⟨procedureId, data, step, state, 0, 0⟩

end Runner

/-- The procedure manager after some events: the store, which a crash keeps, and the runners,
which it loses. -/
structure Manager (D : Type) where
  store : ProcedureStore D
  runners : List (Runner D)

/-- The events of the system. -/
inductive Event (D : Type)
  /-- A new root procedure is submitted. -/
  | submit (procedureId : ℕ) (data : D)
  /-- The runner of a procedure goes once more around its loop. -/
  | round (procedureId : ℕ) (round : Round D)
  /-- The loop of a runner has returned: its keys are deleted, as far as the two batches
  succeed, and the runner ends. -/
  | finish (procedureId : ℕ) (stepKeysOk finishKeysOk : Bool)
  /-- The process stops. -/
  | crash
  /-- `LocalManager::recover` with what `walk_top_down` lists, and whether the deletion of the
  finished procedures succeeds. -/
  | recover (listing : List (ParsedKey × Option (ProcedureMessage D))) (deleteOk : Bool)

namespace Manager

variable {D : Type} [DecidableEq D] (config : RunnerConfig)

/-- `submit_recovered_messages`: a runner for each root procedure, at the step of its
message. -/
def submitRecovered (messages : List (ℕ × ProcedureMessage D)) (state : ProcedureState) :
    List (Runner D) :=
  messages.filterMap fun (procedureId, message) =>
    if message.parentId.isNone then some (Runner.new procedureId message.data message.step state)
    else none

/-- `LocalManager::recover`: the procedures to roll back and those to run, and the keys of the
finished ones deleted. -/
def recover (store : ProcedureStore D) (listing : List (ParsedKey × Option (ProcedureMessage D)))
    (deleteOk : Bool) : Manager D :=
  let loaded := loadMessages listing
  ⟨loaded.finishedIds.foldl (fun store id => store.deleteProcedure id deleteOk deleteOk) store,
    submitRecovered loaded.rollbackMessages .rollingBack ++
      submitRecovered loaded.messages .running⟩

/-- One event, or `none` where it cannot happen: a round of a runner whose loop has returned, a
finish of one whose loop has not, a recovery with runners alive or with a listing that is not
the store's keys. -/
def step (m : Manager D) : Event D → Option (Manager D)
  | .submit procedureId data =>
    if m.runners.any (·.procedureId = procedureId) then none
    else some { m with runners := m.runners ++ [Runner.new procedureId data 0 .running] }
  | .round procedureId round =>
    match m.runners.find? (·.procedureId = procedureId) with
    | none => none
    | some r =>
      (r.iterate config m.store round).map fun (r', store) =>
        ⟨store, m.runners.map fun r₀ => if r₀.procedureId = procedureId then r' else r₀⟩
  | .finish procedureId stepKeysOk finishKeysOk =>
    match m.runners.find? (·.procedureId = procedureId) with
    | none => none
    | some r =>
      if r.state = .done ∨ r.state = .failed ∨ r.state = .poisoned then
        some ⟨m.store.deleteProcedure procedureId stepKeysOk finishKeysOk,
          m.runners.filter (·.procedureId ≠ procedureId)⟩
      else none
  | .crash => some { m with runners := [] }
  | .recover listing deleteOk =>
    if m.runners.isEmpty ∧ listing.isPerm m.store.entries then
      some (recover m.store listing deleteOk)
    else none

/-- A run of events from a manager. -/
def run (m : Manager D) : List (Event D) → Option (Manager D)
  | [] => some m
  | e :: es => (m.step config e).bind fun m' => run m' es

end Manager

/-- The configuration of the run below: no retries, and a procedure that cannot roll back. -/
def resumedConfig : RunnerConfig := ⟨0, false⟩

/-- The message of step 0 of procedure 1, with data 10. -/
def resumedMessage : ProcedureMessage ℕ := ⟨10, none, 0⟩

/-- Procedure 1 persists at step 0 and the process stops; the recovered runner is at step 0
and commits there, and the process stops again.  The listing of the second recovery puts the
step key of step 0 before the commit key of step 0. -/
def resumedRun : List (Event ℕ) :=
  [.submit 1 0,
    .round 1 ⟨.executing true, 10, true, true⟩,
    .crash,
    .recover [(⟨1, 0, .step⟩, some resumedMessage)] true,
    .round 1 ⟨.done, 20, true, true⟩,
    .crash,
    .recover [(⟨1, 0, .step⟩, some resumedMessage), (⟨1, 0, .commit⟩, none)] true]

theorem manager_resumes_committed_procedure :
    ∃ m, (⟨⟨[]⟩, []⟩ : Manager ℕ).run resumedConfig resumedRun = some m ∧
      (⟨1, 0, .commit⟩, none) ∈ m.store.entries ∧
      m.runners = [Runner.new 1 10 0 .running] := by
  refine ⟨_, rfl, ?_, ?_⟩
  · decide
  · rfl

end Greptime
