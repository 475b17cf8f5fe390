import Mathlib.Data.List.Basic

/-!
# The procedure store (`common_procedure::store`)

A procedure writes its state under keys `{procedure_id}/{step:010}.{step|commit|rollback}`:
`store_procedure` the dumped data at a step, `commit_procedure` an empty value when it is done,
`rollback_procedure` its data with the error when it starts to roll back.  The state store is
a map from keys to values; `walk_top_down` lists it in an order the `StateStore` contract does
not fix, and the model takes that listing as an argument.

`load_messages` keeps, for each procedure, the key of the largest step it lists, and the first
listed among keys of equal steps (`entry.0.step < curr_key.step`); the kind of that key decides
whether the procedure is finished, to be rolled back, or to be resumed.  Which of two keys
of equal steps is kept depends on the listing.

The store's prefix and the procedure's type name are left out: the model has one store and one
loader.
-/

namespace Greptime

/-- `KeyType`. -/
inductive KeyType
  | step
  | commit
  | rollback
  deriving DecidableEq, Repr

/-- `ParsedKey`, without the store's prefix. -/
structure ParsedKey where
  procedureId : ℕ
  step : ℕ
  keyType : KeyType
  deriving DecidableEq, Repr

/-- `ProcedureMessage`: the data the procedure dumped, its parent, and the step it was
written at.  The error text of a rollback message is left out. -/
structure ProcedureMessage (D : Type) where
  data : D
  parentId : Option ℕ
  step : ℕ
  deriving DecidableEq, Repr

/-- The keys of the state store and their values; a commit key's value is empty and does not
parse as a message. -/
structure ProcedureStore (D : Type) where
  entries : List (ParsedKey × Option (ProcedureMessage D))

/-- `ProcedureMessages`, the result of `load_messages`. -/
structure ProcedureMessages (D : Type) where
  messages : List (ℕ × ProcedureMessage D)
  rollbackMessages : List (ℕ × ProcedureMessage D)
  finishedIds : List ℕ

namespace ProcedureStore

variable {D : Type}

/-- `StateStore::put`: the value of a key that is present is replaced. -/
def put (store : ProcedureStore D) (key : ParsedKey) (value : Option (ProcedureMessage D)) :
    ProcedureStore D :=
  if store.entries.any (·.1 = key) then
    ⟨store.entries.map fun kv => if kv.1 = key then (key, value) else kv⟩
  else ⟨store.entries ++ [(key, value)]⟩

/-- `ProcedureStore::store_procedure`. -/
def storeProcedure (store : ProcedureStore D) (procedureId step : ℕ) (data : D)
    (parentId : Option ℕ) : ProcedureStore D :=
  store.put ⟨procedureId, step, .step⟩ (some ⟨data, parentId, step⟩)

/-- `ProcedureStore::commit_procedure`. -/
def commitProcedure (store : ProcedureStore D) (procedureId step : ℕ) : ProcedureStore D :=
  store.put ⟨procedureId, step, .commit⟩ none

/-- `ProcedureStore::rollback_procedure`: the key's step is the message's. -/
def rollbackProcedure (store : ProcedureStore D) (procedureId : ℕ)
    (message : ProcedureMessage D) : ProcedureStore D :=
  store.put ⟨procedureId, message.step, .rollback⟩ (some message)

/-- `ProcedureStore::delete_procedure`: the step keys of the procedure are deleted in one
batch and then its commit and rollback keys in another; a batch that fails ends the deletion. -/
def deleteProcedure (store : ProcedureStore D) (procedureId : ℕ) (stepKeysOk finishKeysOk : Bool) :
    ProcedureStore D :=
  if ¬stepKeysOk then store
  else
    let store : ProcedureStore D :=
      ⟨store.entries.filter fun kv => !(kv.1.procedureId = procedureId ∧ kv.1.keyType = .step)⟩
    if ¬finishKeysOk then store
    else ⟨store.entries.filter fun kv => kv.1.procedureId ≠ procedureId⟩

end ProcedureStore

/-- The first loop of `load_messages`: for each procedure, the entry of the largest step
listed, the first listed among those of equal steps. -/
def latestEntries {V : Type} :
    List (ParsedKey × V) → List (ℕ × (ParsedKey × V)) → List (ℕ × (ParsedKey × V))
  | [], acc => acc
  | (key, value) :: listing, acc =>
    match acc.lookup key.procedureId with
    | some (entry, _) =>
      if entry.step < key.step then
        latestEntries listing
          (acc.map fun e => if e.1 = key.procedureId then (key.procedureId, (key, value)) else e)
      else latestEntries listing acc
    | none => latestEntries listing (acc ++ [(key.procedureId, (key, value))])

/-- The second loop of `load_messages`: the kind of each procedure's entry decides where it
goes; a value that does not parse is skipped. -/
def sortMessages {D : Type} :
    List (ℕ × (ParsedKey × Option (ProcedureMessage D))) → ProcedureMessages D
  | [] => ⟨[], [], []⟩
  | (procedureId, (key, value)) :: rest =>
    let m := sortMessages rest
    match key.keyType, value with
    | .step, some message => { m with messages := (procedureId, message) :: m.messages }
    | .commit, _ => { m with finishedIds := procedureId :: m.finishedIds }
    | .rollback, some message =>
      { m with rollbackMessages := (procedureId, message) :: m.rollbackMessages }
    | _, none => m

/-- `ProcedureStore::load_messages` on what `walk_top_down` lists. -/
def loadMessages {D : Type} (listing : List (ParsedKey × Option (ProcedureMessage D))) :
    ProcedureMessages D :=
  sortMessages (latestEntries listing [])

end Greptime
