import Greptime.Manifest.Store

/-!
# The region manifest manager and its checkpointer (`mito2::manifest::{manager, checkpointer}`)

The leader of a region changes its manifest with `update`: the action list is saved as the
delta file of the next version, then applied to the manifest in memory, and the checkpointer
may start a checkpoint of the new manifest.  The checkpoint runs in the background: it saves
the checkpoint, points `_last_checkpoint` at it and deletes the files it makes redundant.

A region that opens reads the manifest back (`open`): from the last checkpoint, if any, it
replays the delta files after it.  A follower catches up with `install_manifest_to`, which
replays the delta files after its version and, when the first of them has been deleted,
first installs the last checkpoint.

`update` and `install_manifest_to` mutate the manager before they can fail, so the model
returns the manager after the call next to the result.  `update` takes the next version before
it encodes and saves the action list (`updateWith` takes the outcome of that step as given): a
failed save leaves the manager one version ahead of its manifest, and the next update saves the
version after, so the versions of the delta files skip one
(`update_after_failed_save_skips_version`).
-/

namespace Greptime

variable {M F : Type}

/-- `RegionLeaderState`. -/
inductive RegionLeaderState
  | writable
  | staging
  | altering
  | dropping
  | truncating
  | editing
  | downgrading
  deriving DecidableEq

/-- `RegionRoleState`. -/
inductive RegionRoleState
  | leader (state : RegionLeaderState)
  | follower
  deriving DecidableEq

/-- The option of `RegionManifestOptions` the modelled code reads. -/
structure RegionManifestOptions where
  checkpointDistance : ℕ

/-- `Checkpointer`: the version of the last checkpoint it completed and the checkpoint its
background task is writing, if any (`is_doing_checkpoint`). -/
structure Checkpointer (M F : Type) where
  manifestOptions : RegionManifestOptions
  lastCheckpointVersion : ℕ
  doingCheckpoint : Option (RegionCheckpoint M F)

namespace Checkpointer

/-- `Checkpointer::new`. -/
def new (manifestOptions : RegionManifestOptions) (lastCheckpointVersion : ℕ) :
    Checkpointer M F :=
  ⟨manifestOptions, lastCheckpointVersion, none⟩

/-- `maybe_do_checkpoint`: outside staging mode, starts a checkpoint of the manifest when it
is `checkpoint_distance` versions past the last checkpoint and no checkpoint is running.  The
source subtracts `u64`s; the versions reached never make it underflow. -/
def maybeDoCheckpoint (c : Checkpointer M F) (manifest : RegionManifest M F)
    (regionState : RegionRoleState) : Checkpointer M F :=
  if regionState = .leader .staging then c
  else if c.manifestOptions.checkpointDistance = 0 then c
  else if manifest.manifestVersion - c.lastCheckpointVersion <
      c.manifestOptions.checkpointDistance then c
  else if c.doingCheckpoint.isSome then c
  else { c with doingCheckpoint := some ⟨manifest.manifestVersion, some manifest⟩ }

/-- What `maybe_do_checkpoint` can do: nothing, or, when no checkpoint is running and the
manifest is past the last checkpoint, start a checkpoint of the manifest. -/
lemma maybeDoCheckpoint_cases (c : Checkpointer M F) (manifest : RegionManifest M F)
    (regionState : RegionRoleState) :
    c.maybeDoCheckpoint manifest regionState = c ∨
      (c.doingCheckpoint = none ∧ c.lastCheckpointVersion < manifest.manifestVersion ∧
        c.maybeDoCheckpoint manifest regionState =
          { c with doingCheckpoint := some ⟨manifest.manifestVersion, some manifest⟩ }) := by
  unfold maybeDoCheckpoint
  split_ifs with h₁ h₂ h₃ h₄
  · exact .inl rfl
  · exact .inl rfl
  · exact .inl rfl
  · exact .inl rfl
  · refine .inr ⟨Option.not_isSome_iff_eq_none.mp h₄, ?_, rfl⟩
    omega

@[simp] lemma maybeDoCheckpoint_manifestOptions (c : Checkpointer M F)
    (manifest : RegionManifest M F) (regionState : RegionRoleState) :
    (c.maybeDoCheckpoint manifest regionState).manifestOptions = c.manifestOptions := by
  rcases maybeDoCheckpoint_cases c manifest regionState with h | ⟨-, -, h⟩ <;> rw [h]

@[simp] lemma maybeDoCheckpoint_lastCheckpointVersion (c : Checkpointer M F)
    (manifest : RegionManifest M F) (regionState : RegionRoleState) :
    (c.maybeDoCheckpoint manifest regionState).lastCheckpointVersion = c.lastCheckpointVersion := by
  rcases maybeDoCheckpoint_cases c manifest regionState with h | ⟨-, -, h⟩ <;> rw [h]

/-- `Inner::do_checkpoint`, the background task: saves the checkpoint, deletes the files below
its version and records the version. -/
def runCheckpointTask (c : Checkpointer M F) (store : ManifestObjectStore M F) :
    Checkpointer M F × ManifestObjectStore M F :=
  match c.doingCheckpoint with
  | none => (c, store)
  | some checkpoint =>
    let version := checkpoint.lastVersion
    let store := (store.saveCheckpoint version checkpoint).deleteUntil version true
    ({ c with lastCheckpointVersion := version, doingCheckpoint := none }, store)

end Checkpointer

/-- `RegionManifestManager`; its store is the object store the operations take. -/
structure RegionManifestManager (M F : Type) where
  lastVersion : ℕ
  checkpointer : Checkpointer M F
  manifest : RegionManifest M F
  stopped : Bool

namespace RegionManifestManager

open RegionManifestBuilder

/-- `RegionManifestManager::new`: the manifest of the metadata at `MIN_VERSION`, persisted as
a `Change`. -/
def new (metadata : M) (options : RegionManifestOptions) (store : ManifestObjectStore M F) :
    Except ManifestError (ManifestObjectStore M F × RegionManifestManager M F) := do
  let version := minVersion
  let manifest ← (RegionManifestBuilder.default.applyChange version metadata).tryBuild
  let store := store.save version [.change metadata] false
  pure (store, ⟨version, .new options minVersion, manifest, false⟩)

/-- `RegionManifestManager::open`: replays the delta files after the last checkpoint over it;
`none` when no metadata is found. -/
def «open» (options : RegionManifestOptions) (store : ManifestObjectStore M F) :
    Except ManifestError (Option (RegionManifestManager M F)) := do
  let checkpoint := store.loadLastCheckpoint
  let lastCheckpointVersion := (checkpoint.map (·.lastVersion)).getD minVersion
  let (version, builder) : ℕ × RegionManifestBuilder M F := match checkpoint with
    | some checkpoint => (max minVersion (checkpoint.lastVersion + 1),
        withCheckpoint checkpoint.checkpoint)
    | none => (minVersion, .default)
  let manifests ← store.fetchManifests version maxVersion
  let builder := VersionedFiles.replay applyActions builder manifests
  if !builder.containsMetadata then
    return none
  let manifest ← builder.tryBuild
  pure (some ⟨manifest.manifestVersion, .new options lastCheckpointVersion, manifest, false⟩)

/-- `install_last_checkpoint`. -/
def installLastCheckpoint (mgr : RegionManifestManager M F) (store : ManifestObjectStore M F) :
    Except ManifestError (ℕ × RegionManifestManager M F) :=
  match store.loadLastCheckpoint with
  | none => .error (.noCheckpoint mgr.lastVersion)
  | some checkpoint => do
    let manifest ← (withCheckpoint checkpoint.checkpoint).tryBuild
    pure (manifest.manifestVersion,
      { mgr with lastVersion := manifest.manifestVersion, manifest })

/-- The end of `install_manifest_to`: replays the fetched delta files over the manifest and
installs the result if it reaches the target version.  The errors report the version the call
started from. -/
def installManifests (mgr : RegionManifestManager M F)
    (manifests : List (ℕ × RegionMetaActionList M F))
    (lastVersion targetVersion : ℕ) :
    RegionManifestManager M F × Except ManifestError ℕ :=
  if manifests.isEmpty then
    (mgr, .error (.noManifests (lastVersion + 1) (targetVersion + 1) lastVersion))
  else
    match (VersionedFiles.replay applyActions (withCheckpoint (some mgr.manifest)) manifests).tryBuild with
    | .error e => (mgr, .error e)
    | .ok newManifest =>
      if newManifest.manifestVersion ≥ targetVersion then
        ({ mgr with manifest := newManifest, lastVersion := newManifest.manifestVersion },
          .ok newManifest.manifestVersion)
      else
        (mgr, .error (.installManifestTo targetVersion newManifest.manifestVersion lastVersion))

/-- `install_manifest_to`: catches up to at least `target_version`, through the last
checkpoint when the delta file after the current version is gone. -/
def installManifestTo (mgr : RegionManifestManager M F) (store : ManifestObjectStore M F)
    (targetVersion : ℕ) :
    RegionManifestManager M F × Except ManifestError ℕ :=
  let lastVersion := mgr.lastVersion
  if lastVersion ≥ targetVersion then (mgr, .ok lastVersion)
  else if mgr.stopped then (mgr, .error .regionStopped)
  else
    match store.fetchManifestsStrictFrom (lastVersion + 1) (targetVersion + 1) with
    | .error e => (mgr, .error e)
    | .ok manifests =>
      if manifests.isEmpty then
        match mgr.installLastCheckpoint store with
        | .error e => (mgr, .error e)
        | .ok (installed, mgr) =>
          if installed ≥ targetVersion then (mgr, .ok installed)
          else
            match store.fetchManifestsStrictFrom (installed + 1) (targetVersion + 1) with
            | .error e => (mgr, .error e)
            | .ok manifests => mgr.installManifests manifests lastVersion targetVersion
      else mgr.installManifests manifests lastVersion targetVersion

/-- `update`, given whether the action list was encoded and saved (`action_list.encode()?` and
`store.save(..).await?`, which fail with `SerdeJson` and `OpenDal`): takes the next version,
saves the list as that version, in the staging directory in staging mode, applies it and lets
the checkpointer decide on a checkpoint. -/
def updateWith (persisted : Except ManifestError Unit) (mgr : RegionManifestManager M F)
    (store : ManifestObjectStore M F) (actions : RegionMetaActionList M F)
    (regionState : RegionRoleState) :
    RegionManifestManager M F × ManifestObjectStore M F × Except ManifestError ℕ :=
  if mgr.stopped then (mgr, store, .error .regionStopped)
  else
    -- `increase_version` comes before anything that can fail
    let version := mgr.lastVersion + 1
    let mgr := { mgr with lastVersion := version }
    match persisted with
    | .error e => (mgr, store, .error e)
    | .ok () =>
      let isStaging := decide (regionState = .leader .staging)
      let store := store.save version actions isStaging
      match ((withCheckpoint (some mgr.manifest)).applyActions version actions).tryBuild with
      | .error e => (mgr, store, .error e)
      | .ok manifest =>
        let checkpointer := mgr.checkpointer.maybeDoCheckpoint manifest regionState
        ({ mgr with manifest, checkpointer }, store, .ok version)

/-- `update` of an action list that is encoded and saved. -/
def update (mgr : RegionManifestManager M F) (store : ManifestObjectStore M F)
    (actions : RegionMetaActionList M F) (regionState : RegionRoleState) :
    RegionManifestManager M F × ManifestObjectStore M F × Except ManifestError ℕ :=
  mgr.updateWith (.ok ()) store actions regionState

/-! ## What the operations do when the files are there -/

lemma containsMetadata_of_tryBuild {b : RegionManifestBuilder M F} {m : RegionManifest M F}
    (h : b.tryBuild = .ok m) : b.containsMetadata = true := by
  rw [← withCheckpoint_of_tryBuild h]
  rfl

/-- `open` with a last checkpoint: the delta files after it, replayed over it. -/
lemma open_of_checkpoint (options : RegionManifestOptions) {store : ManifestObjectStore M F}
    {c : RegionCheckpoint M F} {manifest : RegionManifest M F}
    (hload : store.loadLastCheckpoint = some c) (hle : c.lastVersion + 1 ≤ maxVersion)
    (hbuild : (VersionedFiles.replay applyActions (withCheckpoint c.checkpoint)
      (VersionedFiles.scan store.deltas (c.lastVersion + 1) maxVersion)).tryBuild = .ok manifest) :
    RegionManifestManager.open options store =
      .ok (some ⟨manifest.manifestVersion, .new options c.lastVersion, manifest, false⟩) := by
  have hmax : max minVersion (c.lastVersion + 1) = c.lastVersion + 1 := by simp [minVersion]
  simp only [RegionManifestManager.open, hload, hmax, ManifestObjectStore.fetchManifests_of_le _ hle,
    bind, Except.bind, containsMetadata_of_tryBuild hbuild, hbuild]
  rfl

/-- `open` without a checkpoint: all delta files, replayed from scratch. -/
lemma open_of_no_checkpoint (options : RegionManifestOptions) {store : ManifestObjectStore M F}
    {manifest : RegionManifest M F} (hload : store.loadLastCheckpoint = none)
    (hbuild : (VersionedFiles.replay applyActions .default
      (VersionedFiles.scan store.deltas minVersion maxVersion)).tryBuild = .ok manifest) :
    RegionManifestManager.open options store =
      .ok (some ⟨manifest.manifestVersion, .new options minVersion, manifest, false⟩) := by
  have hfetch := store.fetchManifests_of_le (show minVersion ≤ maxVersion by decide)
  simp only [RegionManifestManager.open, hload, hfetch, bind, Except.bind,
    containsMetadata_of_tryBuild hbuild, hbuild]
  rfl

lemma installLastCheckpoint_of_load (mgr : RegionManifestManager M F)
    {store : ManifestObjectStore M F} {c : RegionCheckpoint M F} {manifest : RegionManifest M F}
    (hload : store.loadLastCheckpoint = some c)
    (hbuild : (withCheckpoint c.checkpoint).tryBuild = .ok manifest) :
    mgr.installLastCheckpoint store =
      .ok (manifest.manifestVersion, { mgr with lastVersion := manifest.manifestVersion, manifest }) := by
  simp only [installLastCheckpoint, hload, bind, Except.bind, hbuild]
  rfl

lemma installManifests_of_tryBuild (mgr : RegionManifestManager M F)
    {manifests : List (ℕ × RegionMetaActionList M F)} {lastVersion targetVersion : ℕ}
    {manifest : RegionManifest M F} (hne : manifests ≠ [])
    (hbuild : (VersionedFiles.replay applyActions (withCheckpoint (some mgr.manifest))
      manifests).tryBuild = .ok manifest)
    (htarget : targetVersion ≤ manifest.manifestVersion) :
    mgr.installManifests manifests lastVersion targetVersion =
      ({ mgr with manifest, lastVersion := manifest.manifestVersion },
        .ok manifest.manifestVersion) := by
  simp only [installManifests, List.isEmpty_iff, hne, ↓reduceIte, hbuild, ge_iff_le, htarget]

/-- `install_manifest_to` for a target at or below the current version: nothing to do. -/
lemma installManifestTo_of_le (mgr : RegionManifestManager M F) (store : ManifestObjectStore M F)
    {targetVersion : ℕ} (h : targetVersion ≤ mgr.lastVersion) :
    mgr.installManifestTo store targetVersion = (mgr, .ok mgr.lastVersion) := by
  simp [installManifestTo, h]

/-- `install_manifest_to` when the delta file after the current version is there. -/
lemma installManifestTo_of_fetch (mgr : RegionManifestManager M F)
    (store : ManifestObjectStore M F) {targetVersion : ℕ}
    {manifests : List (ℕ × RegionMetaActionList M F)}
    (hlt : mgr.lastVersion < targetVersion) (hstopped : mgr.stopped = false)
    (hfetch : store.fetchManifestsStrictFrom (mgr.lastVersion + 1) (targetVersion + 1) =
      .ok manifests) (hne : manifests ≠ []) :
    mgr.installManifestTo store targetVersion =
      mgr.installManifests manifests mgr.lastVersion targetVersion := by
  simp [installManifestTo, Nat.not_le.mpr hlt, hstopped, hfetch, hne]

/-- `install_manifest_to` through the last checkpoint, when that checkpoint reaches the
target. -/
lemma installManifestTo_of_checkpoint (mgr : RegionManifestManager M F)
    (store : ManifestObjectStore M F) {targetVersion installed : ℕ}
    {mgr' : RegionManifestManager M F}
    (hlt : mgr.lastVersion < targetVersion) (hstopped : mgr.stopped = false)
    (hfetch : store.fetchManifestsStrictFrom (mgr.lastVersion + 1) (targetVersion + 1) = .ok [])
    (hinstall : mgr.installLastCheckpoint store = .ok (installed, mgr'))
    (hreach : targetVersion ≤ installed) :
    mgr.installManifestTo store targetVersion = (mgr', .ok installed) := by
  simp [installManifestTo, Nat.not_le.mpr hlt, hstopped, hfetch, hinstall, hreach]

/-- `install_manifest_to` through the last checkpoint and the delta files after it. -/
lemma installManifestTo_of_checkpoint_fetch (mgr : RegionManifestManager M F)
    (store : ManifestObjectStore M F) {targetVersion installed : ℕ}
    {mgr' : RegionManifestManager M F} {manifests : List (ℕ × RegionMetaActionList M F)}
    (hlt : mgr.lastVersion < targetVersion) (hstopped : mgr.stopped = false)
    (hfetch : store.fetchManifestsStrictFrom (mgr.lastVersion + 1) (targetVersion + 1) = .ok [])
    (hinstall : mgr.installLastCheckpoint store = .ok (installed, mgr'))
    (hbelow : installed < targetVersion)
    (hfetch' : store.fetchManifestsStrictFrom (installed + 1) (targetVersion + 1) =
      .ok manifests) :
    mgr.installManifestTo store targetVersion =
      mgr'.installManifests manifests mgr.lastVersion targetVersion := by
  simp [installManifestTo, Nat.not_le.mpr hlt, hstopped, hfetch, hinstall, Nat.not_le.mpr hbelow,
    hfetch']

/-! ## What `update` does -/

/-- An update of a running manager whose new manifest builds: the version after the last one,
the delta file saved and the manifest installed. -/
lemma update_of_tryBuild (mgr : RegionManifestManager M F) (store : ManifestObjectStore M F)
    (actions : RegionMetaActionList M F) (regionState : RegionRoleState)
    {manifest : RegionManifest M F} (hstopped : mgr.stopped = false)
    (hbuild : ((withCheckpoint (some mgr.manifest)).applyActions (mgr.lastVersion + 1)
      actions).tryBuild = .ok manifest) :
    mgr.update store actions regionState =
      (⟨mgr.lastVersion + 1, mgr.checkpointer.maybeDoCheckpoint manifest regionState, manifest,
          mgr.stopped⟩,
        store.save (mgr.lastVersion + 1) actions (decide (regionState = .leader .staging)),
        .ok (mgr.lastVersion + 1)) := by
  simp only [update, updateWith, hstopped, Bool.false_eq_true, ↓reduceIte, hbuild]

/-- A failed encode or save keeps the version taken: from a manager whose version is its
manifest's, the call leaves the manifest and the store as they were and the manager one version
ahead of its manifest. -/
lemma updateWith_error_of_consistent (mgr : RegionManifestManager M F)
    (store : ManifestObjectStore M F) (actions : RegionMetaActionList M F)
    (regionState : RegionRoleState) (e : ManifestError) (hstopped : mgr.stopped = false)
    (hinv : mgr.lastVersion = mgr.manifest.manifestVersion) :
    let r := mgr.updateWith (.error e) store actions regionState
    r.2.2 = .error e ∧ r.1.manifest = mgr.manifest ∧ r.2.1 = store ∧
      r.1.lastVersion = r.1.manifest.manifestVersion + 1 := by
  simp [updateWith, hstopped, hinv]

/-- A region created at version `0` whose next update fails to save: the manager keeps version
`1` with a manifest of version `0`, and the update after it saves version `2`, so no delta file
of version `1` is ever written. -/
theorem update_after_failed_save_skips_version :
    ∃ store mgr, RegionManifestManager.new () ⟨10⟩ (.empty : ManifestObjectStore Unit Unit) =
        .ok (store, mgr) ∧
      let failed := mgr.updateWith (.error .openDal) store
        [.edit ⟨[(1, ())], [], none, none, none⟩] (.leader .writable)
      let next := failed.1.update failed.2.1
        [.edit ⟨[(2, ())], [], none, none, none⟩] (.leader .writable)
      failed.2.2 = .error .openDal ∧ failed.1.lastVersion = 1 ∧
        failed.1.manifest.manifestVersion = 0 ∧ next.2.2 = .ok 2 ∧
        next.2.1.deltas.map Prod.fst = [0, 2] := by
  exact ⟨_, _, rfl, rfl, rfl, rfl, rfl, rfl⟩

end RegionManifestManager

end Greptime
