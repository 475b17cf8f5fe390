import Greptime.Manifest.Action

/-!
# The manifest object store (`mito2::manifest::storage`)

`ManifestObjectStore` keeps a region's manifest as files of an object store: one delta file
per manifest version holding that version's action list, written under the manifest
directory, or under its `staging` sibling for a region in staging mode; checkpoint files
holding a whole manifest; and `_last_checkpoint`, which names the version of the newest
checkpoint.  Readers list the manifest directory only, so a delta written in staging mode is
invisible to them.

`delete_until` removes what a new checkpoint makes redundant.  It keeps the newest older
checkpoint and the delta files after it, so that a reader who finds the previous
`_last_checkpoint` still has everything it needs.

Files are modelled decoded, each holding the value it encodes; compression, checksums and the
size accounting are left out, and writes to the object store do not fail.
-/

namespace Greptime

variable {M F : Type}

/-- `RegionCheckpoint`: the manifest as of `last_version`.  `compacted_actions` only feeds the
logs. -/
structure RegionCheckpoint (M F : Type) where
  lastVersion : ℕ
  checkpoint : Option (RegionManifest M F)
  deriving DecidableEq

/-- The files of a region's manifest: delta files by version under the manifest directory and
under the staging directory, checkpoint files by version, and the version `_last_checkpoint`
names. -/
structure ManifestObjectStore (M F : Type) where
  deltas : List (ℕ × RegionMetaActionList M F)
  stagingDeltas : List (ℕ × RegionMetaActionList M F)
  checkpoints : List (ℕ × RegionCheckpoint M F)
  lastCheckpoint : Option ℕ
  deriving DecidableEq

namespace ManifestObjectStore

/-- A store with no files. -/
def empty : ManifestObjectStore M F := ⟨[], [], [], none⟩

/-- `save`: writes the delta file of a version, in the staging directory when `is_staging`. -/
def save (store : ManifestObjectStore M F) (version : ℕ)
    (actions : RegionMetaActionList M F) (isStaging : Bool) : ManifestObjectStore M F :=
  if isStaging then
    { store with stagingDeltas := KeyedFiles.write store.stagingDeltas version actions }
  else { store with deltas := KeyedFiles.write store.deltas version actions }

/-- `save_checkpoint`: writes the checkpoint file, then `_last_checkpoint`. -/
def saveCheckpoint (store : ManifestObjectStore M F) (version : ℕ)
    (checkpoint : RegionCheckpoint M F) : ManifestObjectStore M F :=
  { store with
    checkpoints := KeyedFiles.write store.checkpoints version checkpoint
    lastCheckpoint := some version }

/-- `load_last_checkpoint`, decoded as `RegionManifestManager::last_checkpoint` does: the
checkpoint file `_last_checkpoint` names, or none when either file is missing. -/
def loadLastCheckpoint (store : ManifestObjectStore M F) : Option (RegionCheckpoint M F) :=
  store.lastCheckpoint.bind fun version => store.checkpoints.lookup version

/-- `scan`: the delta files of the versions in `[start, end)`, sorted by version. -/
def scan (store : ManifestObjectStore M F) (start stop : ℕ) :
    Except ManifestError (List (ℕ × RegionMetaActionList M F)) :=
  if start ≤ stop then .ok (VersionedFiles.scan store.deltas start stop)
  else .error (.invalidScanIndex start stop)

/-- `fetch_manifests`: the contents of the files `scan` lists. -/
def fetchManifests (store : ManifestObjectStore M F) (startVersion endVersion : ℕ) :
    Except ManifestError (List (ℕ × RegionMetaActionList M F)) :=
  store.scan startVersion endVersion

/-- `fetch_manifests_strict_from`: the files of `[start_version, end_version)` from
`start_version` on, or none at all when the file of `start_version` is missing. -/
def fetchManifestsStrictFrom (store : ManifestObjectStore M F)
    (startVersion endVersion : ℕ) :
    Except ManifestError (List (ℕ × RegionMetaActionList M F)) := do
  let manifests ← store.fetchManifests startVersion endVersion
  match manifests.findIdx? (·.1 = startVersion) with
  | some startIndex => pure (manifests.drop startIndex)
  | none => pure []

/-- `delete_until`: removes the delta and checkpoint files of the versions below `end`.  With
`keep_last_checkpoint` it keeps the newest checkpoint below `end`, and the delta files after
that checkpoint. -/
def deleteUntil (store : ManifestObjectStore M F) (stop : ℕ)
    (keepLastCheckpoint : Bool) : ManifestObjectStore M F :=
  let checkpointVersion : Option ℕ :=
    if keepLastCheckpoint then ((store.checkpoints.map Prod.fst).filter (· < stop)).max?
    else none
  let deleteDelta (version : ℕ) : Bool :=
    version < stop && match checkpointVersion with
      | some maxVersion => version ≤ maxVersion
      | none => true
  let deleteCheckpoint (version : ℕ) : Bool :=
    version < stop && match checkpointVersion with
      | some maxVersion => version < maxVersion
      | none => true
  { store with
    deltas := store.deltas.filter fun e => !deleteDelta e.1
    checkpoints := store.checkpoints.filter fun e => !deleteCheckpoint e.1 }

/-! ## Small lemmas -/

@[simp] lemma save_deltas (store : ManifestObjectStore M F) (version : ℕ)
    (actions : RegionMetaActionList M F) :
    (store.save version actions false).deltas = KeyedFiles.write store.deltas version actions := rfl

@[simp] lemma save_checkpoints (store : ManifestObjectStore M F) (version : ℕ)
    (actions : RegionMetaActionList M F) (isStaging : Bool) :
    (store.save version actions isStaging).checkpoints = store.checkpoints := by
  unfold save
  split <;> rfl

@[simp] lemma save_lastCheckpoint (store : ManifestObjectStore M F) (version : ℕ)
    (actions : RegionMetaActionList M F) (isStaging : Bool) :
    (store.save version actions isStaging).lastCheckpoint = store.lastCheckpoint := by
  unfold save
  split <;> rfl

@[simp] lemma saveCheckpoint_deltas (store : ManifestObjectStore M F) (version : ℕ)
    (checkpoint : RegionCheckpoint M F) :
    (store.saveCheckpoint version checkpoint).deltas = store.deltas := rfl

@[simp] lemma saveCheckpoint_checkpoints (store : ManifestObjectStore M F) (version : ℕ)
    (checkpoint : RegionCheckpoint M F) :
    (store.saveCheckpoint version checkpoint).checkpoints =
      KeyedFiles.write store.checkpoints version checkpoint := rfl

@[simp] lemma saveCheckpoint_lastCheckpoint (store : ManifestObjectStore M F) (version : ℕ)
    (checkpoint : RegionCheckpoint M F) :
    (store.saveCheckpoint version checkpoint).lastCheckpoint = some version := rfl

@[simp] lemma deleteUntil_lastCheckpoint (store : ManifestObjectStore M F) (stop : ℕ)
    (keepLastCheckpoint : Bool) :
    (store.deleteUntil stop keepLastCheckpoint).lastCheckpoint = store.lastCheckpoint := rfl

/-- `delete_until` keeping the last checkpoint, when there is no checkpoint below `end`:
everything below `end` goes. -/
lemma deleteUntil_of_no_checkpoint_below (store : ManifestObjectStore M F) {stop : ℕ}
    (h : ((store.checkpoints.map Prod.fst).filter (· < stop)).max? = none) :
    (store.deleteUntil stop true).deltas = store.deltas.filter (fun e => decide (stop ≤ e.1)) ∧
      (store.deleteUntil stop true).checkpoints =
        store.checkpoints.filter (fun e => decide (stop ≤ e.1)) := by
  simp only [deleteUntil, ↓reduceIte, h, Bool.and_true, decide_not.symm, not_lt, and_self]

/-- `delete_until` keeping the last checkpoint, whose newest checkpoint below `end` is
`m`: the delta files up to `m` and the checkpoint files below `m` go. -/
lemma deleteUntil_of_checkpoint_below (store : ManifestObjectStore M F) {stop m : ℕ}
    (h : ((store.checkpoints.map Prod.fst).filter (· < stop)).max? = some m) :
    (store.deleteUntil stop true).deltas =
        store.deltas.filter (fun e => !(decide (e.1 < stop) && decide (e.1 ≤ m))) ∧
      (store.deleteUntil stop true).checkpoints =
        store.checkpoints.filter (fun e => !(decide (e.1 < stop) && decide (e.1 < m))) := by
  simp only [deleteUntil, ↓reduceIte, h, and_self]

lemma fetchManifests_of_le (store : ManifestObjectStore M F) {start stop : ℕ}
    (h : start ≤ stop) :
    store.fetchManifests start stop = .ok (VersionedFiles.scan store.deltas start stop) := by
  simp [fetchManifests, scan, h]

/-- Fetching strictly from a version, when the manifest directory holds the delta files of the
versions `[lo, lo + n)`: the files from that version on, or nothing when its file is gone. -/
lemma fetchManifestsStrictFrom_segment {store : ManifestObjectStore M F}
    {log : ℕ → RegionMetaActionList M F} {lo n start stop : ℕ}
    (hdeltas : store.deltas = VersionedFiles.segment log lo n) (hle : start ≤ stop)
    (hstop : stop ≤ lo + n) :
    store.fetchManifestsStrictFrom start stop =
      .ok (if lo ≤ start then VersionedFiles.segment log start (stop - start) else []) := by
  have hscan : VersionedFiles.scan store.deltas start stop =
      VersionedFiles.segment log (max lo start) (stop - max lo start) := by
    rw [hdeltas, VersionedFiles.scan_segment]
    congr 2
    omega
  simp only [fetchManifestsStrictFrom, fetchManifests_of_le _ hle, hscan, bind, Except.bind]
  rw [VersionedFiles.findIdx?_segment log (le_max_right lo start)]
  by_cases hlo : lo ≤ start
  · have hmax : max lo start = start := max_eq_right hlo
    by_cases hn : 0 < stop - start
    · simp only [hmax, hn, and_self, ↓reduceIte, List.drop_zero, hlo]
      rfl
    · have hzero : stop - start = 0 := by omega
      simp only [hmax, hzero, lt_irrefl, and_false, ↓reduceIte, hlo, VersionedFiles.segment_zero]
      rfl
  · have hne : ¬ start = max lo start := by omega
    simp only [hne, false_and, ↓reduceIte, hlo]
    rfl

/-- The checkpoint `_last_checkpoint` names is one of the checkpoint files. -/
lemma mem_of_loadLastCheckpoint {store : ManifestObjectStore M F} {c : RegionCheckpoint M F}
    (h : store.loadLastCheckpoint = some c) :
    ∃ version, store.lastCheckpoint = some version ∧ (version, c) ∈ store.checkpoints := by
  unfold loadLastCheckpoint at h
  obtain ⟨version, hv, hc⟩ := Option.bind_eq_some_iff.mp h
  obtain ⟨l₁, l₂, heq, -⟩ := List.lookup_eq_some_iff.mp hc
  exact ⟨version, hv, heq ▸ by simp⟩

lemma loadLastCheckpoint_isSome {store : ManifestObjectStore M F} {version : ℕ}
    (hv : store.lastCheckpoint = some version) (hmem : version ∈ store.checkpoints.map Prod.fst) :
    store.loadLastCheckpoint.isSome := by
  obtain ⟨e, he, rfl⟩ := List.mem_map.mp hmem
  simp only [loadLastCheckpoint, hv, Option.bind_some, List.lookup_isSome_iff]
  exact ⟨e, he, by simp⟩

end ManifestObjectStore

end Greptime
