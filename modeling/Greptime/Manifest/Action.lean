import Greptime.Foundations.Log
import Greptime.Time.Timestamp

/-!
# Region manifest actions and the manifest builder (`mito2::manifest::action`)

A region's manifest (its metadata, SST files, flushed WAL entry and sequence, last truncated
entry and compaction window) is the result of folding action lists over a builder: an action
list is persisted per manifest version, and `RegionManifestBuilder` applies each action with
the version of its list.  `Remove` is not applied, and only `Change`, `Edit` and `Truncate`
set `manifest_version`: a list made of `Remove` actions alone leaves the version behind
(`applyActions_manifestVersion`).

The builder and the manifest carry the same fields, the builder's metadata being optional;
`with_checkpoint` and `try_build` convert between them (`tryBuild_withCheckpoint`,
`withCheckpoint_of_tryBuild`), which is what lets a checkpoint stand for the replay of the
action lists up to its version.

`removed_files` records the files an action removes, to purge them later.  It changes nothing
else and nothing else reads it, so the builder is modelled without it and `removedFilesAfter`
gives its next value.  An edit and a partial truncate record the files they remove, but the
truncate of all data reads the files after clearing them and records none
(`applyTruncate_all_forgets_removed_files`).

The metadata and the SST file metadata are opaque to this code and are type parameters, files
being keyed by their id.
-/

namespace Greptime

/-- `MIN_VERSION`. -/
def minVersion : ℕ := 0

/-- `MAX_VERSION`: `u64::MAX`. -/
def maxVersion : ℕ := 18446744073709551615

/-- `RegionEdit`: the files added, given with their id, and the ids of the files removed. -/
structure RegionEdit (F : Type) where
  filesToAdd : List (ℕ × F)
  filesToRemove : List ℕ
  compactionTimeWindow : Option Duration
  flushedEntryId : Option ℕ
  flushedSequence : Option ℕ
  deriving DecidableEq

/-- `TruncateKind`. -/
inductive TruncateKind
  /-- `TruncateKind::All`: all data up to an entry id and a sequence. -/
  | all (truncatedEntryId truncatedSequence : ℕ)
  /-- `TruncateKind::Partial`: some files only. -/
  | partialFiles (filesToRemove : List ℕ)
  deriving DecidableEq

/-- `RegionMetaAction`. -/
inductive RegionMetaAction (M F : Type)
  | change (metadata : M)
  | edit (edit : RegionEdit F)
  | remove
  | truncate (kind : TruncateKind)
  deriving DecidableEq

/-- `RegionMetaActionList`. -/
abbrev RegionMetaActionList (M F : Type) := List (RegionMetaAction M F)

/-- Whether applying the action sets the builder's version: all actions but `Remove` do. -/
def RegionMetaAction.setsVersion {M F : Type} : RegionMetaAction M F → Bool
  | .remove => false
  | _ => true

/-- An action list sets the version when one of its actions does. -/
def setsVersion {M F : Type} (actions : RegionMetaActionList M F) : Bool :=
  actions.any RegionMetaAction.setsVersion

/-- `RegionManifest`, without `removed_files`.  Versions (`ℕ`), WAL entry ids
(`EntryId`), sequences (`SequenceNumber`) and file ids (`FileId`) are naturals; files are
keyed by their id. -/
structure RegionManifest (M F : Type) where
  metadata : M
  files : List (ℕ × F)
  flushedEntryId : ℕ
  flushedSequence : ℕ
  manifestVersion : ℕ
  truncatedEntryId : Option ℕ
  compactionTimeWindow : Option Duration
  deriving DecidableEq

/-- `RegionManifestBuilder`, without `removed_files`. -/
structure RegionManifestBuilder (M F : Type) where
  metadata : Option M
  files : List (ℕ × F)
  flushedEntryId : ℕ
  flushedSequence : ℕ
  manifestVersion : ℕ
  truncatedEntryId : Option ℕ
  compactionTimeWindow : Option Duration
  deriving DecidableEq

/-- The errors of the manifest code: `RegionMetadataNotFound` ("Cannot find RegionMetadata"),
`RegionStopped`, `NoCheckpoint`, `NoManifests` and `InstallManifestTo` with the versions they
report, `InvalidScanIndex` of the store, and the failures of encoding an action list
(`SerdeJson`) and of the object store (`OpenDal`).  The region id they also report is left
out. -/
inductive ManifestError
  | regionMetadataNotFound
  | regionStopped
  | noCheckpoint (lastVersion : ℕ)
  | noManifests (startVersion endVersion lastVersion : ℕ)
  | installManifestTo (targetVersion availableVersion lastVersion : ℕ)
  | invalidScanIndex (start stop : ℕ)
  | serdeJson
  | openDal
  deriving DecidableEq

namespace RegionManifestBuilder

variable {M F : Type}

/-- `RegionManifestBuilder::default`. -/
def default : RegionManifestBuilder M F := ⟨none, [], 0, 0, 0, none, none⟩

/-- `RegionManifestBuilder::with_checkpoint`. -/
def withCheckpoint : Option (RegionManifest M F) → RegionManifestBuilder M F
  | some s => ⟨some s.metadata, s.files, s.flushedEntryId, s.flushedSequence, s.manifestVersion,
      s.truncatedEntryId, s.compactionTimeWindow⟩
  | none => default

/-- `apply_change`. -/
def applyChange (b : RegionManifestBuilder M F) (manifestVersion : ℕ)
    (metadata : M) : RegionManifestBuilder M F :=
  { b with metadata := some metadata, manifestVersion }

/-- `apply_edit`: adds the new files, replacing a file of the same id, removes the removed
ones, and keeps the largest flushed entry id and sequence. -/
def applyEdit (b : RegionManifestBuilder M F) (manifestVersion : ℕ)
    (edit : RegionEdit F) : RegionManifestBuilder M F :=
  let files := edit.filesToAdd.foldl (fun files f => KeyedFiles.write files f.1 f.2) b.files
  let files := edit.filesToRemove.foldl KeyedFiles.erase files
  { b with
    manifestVersion, files,
    flushedEntryId := match edit.flushedEntryId with
      | some id => max b.flushedEntryId id
      | none => b.flushedEntryId
    flushedSequence := match edit.flushedSequence with
      | some seq => max b.flushedSequence seq
      | none => b.flushedSequence
    compactionTimeWindow := match edit.compactionTimeWindow with
      | some window => some window
      | none => b.compactionTimeWindow }

/-- `apply_truncate`. -/
def applyTruncate (b : RegionManifestBuilder M F) (manifestVersion : ℕ) :
    TruncateKind → RegionManifestBuilder M F
  | .all entryId sequence =>
    { b with
      manifestVersion := manifestVersion
      flushedEntryId := entryId
      flushedSequence := sequence
      truncatedEntryId := some entryId
      files := [] }
  | .partialFiles filesToRemove =>
    { b with manifestVersion, files := filesToRemove.foldl KeyedFiles.erase b.files }

/-- The `match` on each action in `update`, `open` and `install_manifest_to`: `Remove` is only
logged. -/
def applyAction (b : RegionManifestBuilder M F) (version : ℕ) :
    RegionMetaAction M F → RegionManifestBuilder M F
  | .change metadata => b.applyChange version metadata
  | .edit edit => b.applyEdit version edit
  | .remove => b
  | .truncate kind => b.applyTruncate version kind

/-- The loop over an action list, every action applied with the list's version. -/
def applyActions (b : RegionManifestBuilder M F) (version : ℕ)
    (actions : RegionMetaActionList M F) : RegionManifestBuilder M F :=
  actions.foldl (fun b action => b.applyAction version action) b

/-- `contains_metadata`. -/
def containsMetadata (b : RegionManifestBuilder M F) : Bool := b.metadata.isSome

/-- `try_build`. -/
def tryBuild (b : RegionManifestBuilder M F) : Except ManifestError (RegionManifest M F) :=
  match b.metadata with
  | some metadata => .ok ⟨metadata, b.files, b.flushedEntryId, b.flushedSequence,
      b.manifestVersion, b.truncatedEntryId, b.compactionTimeWindow⟩
  | none => .error .regionMetadataNotFound

/-! ## What applying actions does -/

@[simp] lemma applyActions_nil (b : RegionManifestBuilder M F) (v : ℕ) :
    b.applyActions v [] = b := rfl

lemma applyActions_cons (b : RegionManifestBuilder M F) (v : ℕ)
    (a : RegionMetaAction M F) (actions : RegionMetaActionList M F) :
    b.applyActions v (a :: actions) = (b.applyAction v a).applyActions v actions := rfl

lemma applyAction_manifestVersion (b : RegionManifestBuilder M F) (v : ℕ)
    (a : RegionMetaAction M F) :
    (b.applyAction v a).manifestVersion = if a.setsVersion then v else b.manifestVersion := by
  cases a with
  | change => rfl
  | edit => rfl
  | remove => rfl
  | truncate kind => cases kind <;> rfl

/-- After an action list, the builder's version is the list's version when the list sets the
version, and is unchanged otherwise. -/
lemma applyActions_manifestVersion (b : RegionManifestBuilder M F) (v : ℕ)
    (actions : RegionMetaActionList M F) :
    (b.applyActions v actions).manifestVersion =
      if setsVersion actions then v else b.manifestVersion := by
  induction actions generalizing b with
  | nil => rfl
  | cons a actions ih =>
    rw [applyActions_cons, ih, applyAction_manifestVersion]
    simp only [setsVersion, List.any_cons]
    by_cases h : a.setsVersion <;> simp [h]

lemma applyActions_manifestVersion_of_setsVersion (b : RegionManifestBuilder M F)
    (v : ℕ) {actions : RegionMetaActionList M F} (h : setsVersion actions) :
    (b.applyActions v actions).manifestVersion = v := by
  rw [applyActions_manifestVersion, if_pos h]

/-- Actions never drop the metadata. -/
lemma applyAction_metadata_isSome (b : RegionManifestBuilder M F) (v : ℕ)
    (a : RegionMetaAction M F) (h : b.metadata.isSome) : (b.applyAction v a).metadata.isSome := by
  cases a with
  | change => rfl
  | edit => exact h
  | remove => exact h
  | truncate kind => cases kind <;> exact h

lemma applyActions_metadata_isSome (b : RegionManifestBuilder M F) (v : ℕ)
    (actions : RegionMetaActionList M F) (h : b.metadata.isSome) :
    (b.applyActions v actions).metadata.isSome := by
  induction actions generalizing b with
  | nil => exact h
  | cons a actions ih => exact ih _ (applyAction_metadata_isSome b v a h)

/-! ## Builders and manifests -/

/-- A manifest turned into a builder builds back to itself. -/
@[simp] lemma tryBuild_withCheckpoint (m : RegionManifest M F) :
    (withCheckpoint (some m)).tryBuild = .ok m := rfl

/-- A builder that builds is the builder of the manifest it builds. -/
lemma withCheckpoint_of_tryBuild {b : RegionManifestBuilder M F} {m : RegionManifest M F}
    (h : b.tryBuild = .ok m) : withCheckpoint (some m) = b := by
  obtain ⟨metadata, files, eid, seq, v, tid, window⟩ := b
  cases metadata with
  | none => cases h
  | some metadata =>
    cases h
    rfl

lemma withCheckpoint_some_injective :
    Function.Injective (fun m : RegionManifest M F => withCheckpoint (some m)) := by
  intro m₁ m₂ h
  have h' := congrArg tryBuild h
  simpa using h'

lemma tryBuild_eq_ok_of_isSome {b : RegionManifestBuilder M F} (h : b.metadata.isSome) :
    ∃ m, b.tryBuild = .ok m := by
  obtain ⟨metadata, files, eid, seq, v, tid, window⟩ := b
  cases metadata with
  | none => cases h
  | some metadata => exact ⟨_, rfl⟩

lemma manifestVersion_of_tryBuild {b : RegionManifestBuilder M F} {m : RegionManifest M F}
    (h : b.tryBuild = .ok m) : m.manifestVersion = b.manifestVersion := by
  rw [← withCheckpoint_of_tryBuild h]
  rfl

end RegionManifestBuilder

/-! ## Removed files -/

/-- `RemovedFiles`: the ids of the files one action removed from the manifest, and when, in
milliseconds.  `file_ids` is a `HashSet`; only membership is read. -/
structure RemovedFiles where
  removedAt : ℤ
  fileIds : List ℕ
  deriving DecidableEq

/-- `RemovedFilesRecord::add_removed_files`: a new entry after the others. -/
def addRemovedFiles (record : List RemovedFiles) (fileIds : List ℕ) (removedAt : ℤ) :
    List RemovedFiles :=
  record ++ [⟨removedAt, fileIds⟩]

namespace RegionManifestBuilder

/-- The builder's `removed_files` after an action, stamped with `timestamp` (the action's
`timestamp_ms`, or the clock's when it has none).  `apply_edit` records the files the edit
removes, `apply_truncate` those of a partial truncate and, for `TruncateKind::All`, the files
left after `files.clear()`. -/
def removedFilesAfter (b : RegionManifestBuilder M F) (version : ℕ) (timestamp : ℤ)
    (record : List RemovedFiles) : RegionMetaAction M F → List RemovedFiles
  | .edit edit => addRemovedFiles record edit.filesToRemove timestamp
  | .truncate (.all entryId sequence) =>
    addRemovedFiles record
      ((b.applyTruncate version (.all entryId sequence)).files.map Prod.fst) timestamp
  | .truncate (.partialFiles filesToRemove) => addRemovedFiles record filesToRemove timestamp
  | .change _ => record
  | .remove => record

/-- An edit records every file it takes out of the manifest, in a new entry with its
timestamp. -/
lemma mem_removedFilesAfter_edit (b : RegionManifestBuilder M F) (version : ℕ)
    (timestamp : ℤ) (record : List RemovedFiles) (edit : RegionEdit F) {fileId : ℕ}
    (hbefore : fileId ∈ b.files.map Prod.fst)
    (hafter : fileId ∉ (b.applyEdit version edit).files.map Prod.fst) :
    b.removedFilesAfter version timestamp record (.edit edit) =
      record ++ [⟨timestamp, edit.filesToRemove⟩] ∧ fileId ∈ edit.filesToRemove := by
  refine ⟨rfl, ?_⟩
  by_contra hkept
  apply hafter
  simp only [applyEdit]
  exact (KeyedFiles.mem_keys_foldl_erase _ _).mpr
    ⟨KeyedFiles.mem_keys_foldl_write _ hbefore, hkept⟩

/-- A partial truncate records every file it takes out of the manifest, in a new entry with its
timestamp. -/
lemma mem_removedFilesAfter_partialFiles (b : RegionManifestBuilder M F) (version : ℕ)
    (timestamp : ℤ) (record : List RemovedFiles) (filesToRemove : List ℕ) {fileId : ℕ}
    (hbefore : fileId ∈ b.files.map Prod.fst)
    (hafter : fileId ∉
      (b.applyTruncate version (.partialFiles filesToRemove)).files.map Prod.fst) :
    b.removedFilesAfter version timestamp record (.truncate (.partialFiles filesToRemove)) =
      record ++ [⟨timestamp, filesToRemove⟩] ∧ fileId ∈ filesToRemove := by
  refine ⟨rfl, ?_⟩
  by_contra hkept
  exact hafter ((KeyedFiles.mem_keys_foldl_erase _ _).mpr ⟨hbefore, hkept⟩)

/-- A truncate of all data on a builder with one file: the file leaves the manifest, and the new
entry of `removed_files` is empty. -/
theorem applyTruncate_all_forgets_removed_files :
    let b : RegionManifestBuilder Unit Unit := ⟨some (), [(7, ())], 3, 3, 1, none, none⟩
    (b.applyAction 2 (.truncate (.all 5 5))).files = [] ∧
      b.removedFilesAfter 2 1000 [] (.truncate (.all 5 5)) = [⟨1000, []⟩] := by
  exact ⟨rfl, rfl⟩

end RegionManifestBuilder

end Greptime
