import Greptime.Manifest.Manager
import Mathlib.Data.List.GetD

/-!
# Recovering a region's manifest from its files

The leader of a region runs `update` after `update`, and its checkpointer's background task
runs in between, at any point.  Whoever reads the files (a region that opens, a follower that
catches up) should rebuild the leader's manifest.

The manifest the leader has after each update is the replay of the action lists of the
versions so far (`replayLog`), provided every update saved its list in the manifest directory
and every list moved the manifest's version to its own.  Two kinds of updates break this:

* in staging mode the delta file goes to the staging directory, which `open` never lists;
* a list of `Remove` actions alone is saved under a new version but leaves the manifest's
  version behind, so `install_manifest_to` that version replays it and then finds the
  manifest short of the target (`InstallManifestTo`).

For every history of the other updates, `Leader.Consistent` holds after each event: the
delta files are those of a range of versions reaching the last one, every checkpoint file
(and the one being written) is the replay up to its version, and `_last_checkpoint` names the
newest checkpoint with no delta file missing after it.  From there `open` and
`install_manifest_to` rebuild the leader's manifests.
-/

namespace Greptime

variable {M F : Type}

open RegionManifestBuilder VersionedFiles

/-! ## The leader's history -/

/-- What happens to the leader's manifest: an `update` in a region state, or the checkpointer's
background task running to its end. -/
inductive LeaderEvent (M F : Type)
  | update (actions : RegionMetaActionList M F) (regionState : RegionRoleState)
  | checkpointTask

namespace LeaderEvent

/-- The events that keep the files in step with the versions: updates outside staging mode
whose action list sets the version, and checkpoints. -/
def keepsVersions : LeaderEvent M F → Bool
  | .update actions regionState => !decide (regionState = .leader .staging) && setsVersion actions
  | .checkpointTask => true

/-- The action lists an event adds to the log of versions. -/
def logged : LeaderEvent M F → List (RegionMetaActionList M F)
  | .update actions _ => [actions]
  | .checkpointTask => []

lemma length_flatMap_logged_le (events : List (LeaderEvent M F)) :
    (events.flatMap logged).length ≤ events.length := by
  induction events with
  | nil => simp
  | cons e events ih =>
    have he : e.logged.length ≤ 1 := by cases e <;> simp [logged]
    rw [List.flatMap_cons, List.length_append, List.length_cons]
    omega

end LeaderEvent

/-- The leader: the files of its manifest and its manager.  `history` records, for each
`update` that succeeded, the version it returned and the manifest it left; a follower that
installs the leader's files reaches one of these manifests, and the theorems about followers
say which. -/
structure Leader (M F : Type) where
  store : ManifestObjectStore M F
  manager : RegionManifestManager M F
  history : List (ℕ × RegionManifest M F)

namespace Leader

/-- A region created with `RegionManifestManager::new` on an empty directory. -/
def create (metadata : M) (options : RegionManifestOptions) : Except ManifestError (Leader M F) :=
  do
  let (store, manager) ← RegionManifestManager.new metadata options .empty
  pure ⟨store, manager, [(manager.lastVersion, manager.manifest)]⟩

/-- One event.  A failed update keeps what `update` changed before it failed. -/
def step (l : Leader M F) : LeaderEvent M F → Leader M F
  | .update actions regionState =>
    match l.manager.update l.store actions regionState with
    | (manager, store, .ok version) => ⟨store, manager, l.history ++ [(version, manager.manifest)]⟩
    | (manager, store, .error _) => { l with store, manager }
  | .checkpointTask =>
    let (checkpointer, store) := l.manager.checkpointer.runCheckpointTask l.store
    { l with store, manager := { l.manager with checkpointer } }

/-- A history of events. -/
def run (l : Leader M F) (events : List (LeaderEvent M F)) : Leader M F :=
  events.foldl step l

@[simp] lemma run_nil (l : Leader M F) : l.run [] = l := rfl

@[simp] lemma run_cons (l : Leader M F) (e : LeaderEvent M F) (events : List (LeaderEvent M F)) :
    l.run (e :: events) = (l.step e).run events := rfl

end Leader

/-! ## The log of versions -/

/-- The action list of a version; `[]` past the end. -/
def logAt (log : List (RegionMetaActionList M F)) (version : ℕ) : RegionMetaActionList M F :=
  log.getD version []

/-- The builder after the action lists of the first `n` versions: the manifest every reader
should rebuild. -/
def replayLog (log : List (RegionMetaActionList M F)) (n : ℕ) : RegionManifestBuilder M F :=
  replay applyActions .default (segment (logAt log) 0 n)

lemma replayLog_succ (log : List (RegionMetaActionList M F)) (n : ℕ) :
    replayLog log (n + 1) = (replayLog log n).applyActions n (logAt log n) := by
  unfold replayLog
  rw [replay_segment_succ, Nat.zero_add]

lemma logAt_append_of_lt {log : List (RegionMetaActionList M F)}
    (more : List (RegionMetaActionList M F)) {v : ℕ} (h : v < log.length) :
    logAt (log ++ more) v = logAt log v :=
  List.getD_append _ _ _ _ h

lemma logAt_mem {log : List (RegionMetaActionList M F)} {v : ℕ} (h : v < log.length) :
    logAt log v ∈ log := by
  rw [logAt, List.getD_eq_getElem _ _ h]
  exact List.getElem_mem h

/-- Appending to the log does not change the replay of the versions already there. -/
lemma replayLog_append {log : List (RegionMetaActionList M F)}
    (more : List (RegionMetaActionList M F)) {n : ℕ} (h : n ≤ log.length) :
    replayLog (log ++ more) n = replayLog log n := by
  have hcongr : ∀ v, 0 ≤ v → v < 0 + n → logAt (log ++ more) v = logAt log v :=
    fun v _ hv => logAt_append_of_lt more (by omega)
  unfold replayLog
  rw [segment_congr _ hcongr]

/-- When every list sets the version, the replay up to a version ends at that version. -/
lemma replayLog_manifestVersion {log : List (RegionMetaActionList M F)}
    (hlog : ∀ actions ∈ log, setsVersion actions) {v : ℕ} (hv : v < log.length) :
    (replayLog log (v + 1)).manifestVersion = v := by
  rw [replayLog_succ]
  exact applyActions_manifestVersion_of_setsVersion _ _ (hlog _ (logAt_mem hv))

/-! ## The invariant -/

/-- Where `_last_checkpoint` stands, when the delta files are those from version `lo` on:
without a checkpoint nothing was deleted; with one, it names the newest checkpoint file, and
no delta file after it is missing. -/
def CheckpointShape (store : ManifestObjectStore M F) (lo : ℕ) : Prop :=
  match store.lastCheckpoint with
  | none => lo = 0 ∧ store.checkpoints = []
  | some cp => cp ∈ store.checkpoints.map Prod.fst ∧ lo ≤ cp + 1 ∧ ∀ e ∈ store.checkpoints, e.1 ≤ cp

/-- A leader whose manifest and files agree with a log of versions, every list of which sets
the version. -/
structure Leader.Consistent (log : List (RegionMetaActionList M F)) (l : Leader M F) : Prop where
  versioned : ∀ actions ∈ log, setsVersion actions
  lastVersion : l.manager.lastVersion + 1 = log.length
  metadata : ∀ v < log.length, (replayLog log (v + 1)).metadata.isSome
  manifest : withCheckpoint (some l.manager.manifest) = replayLog log log.length
  history : ∀ v m, (v, m) ∈ l.history ↔
    v < log.length ∧ withCheckpoint (some m) = replayLog log (v + 1)
  running : l.manager.stopped = false
  checkpoints : ∀ e ∈ l.store.checkpoints, e.2.lastVersion = e.1 ∧ e.1 < log.length ∧
    withCheckpoint e.2.checkpoint = replayLog log (e.1 + 1)
  lastCheckpointVersion :
    l.manager.checkpointer.lastCheckpointVersion = l.store.lastCheckpoint.getD minVersion
  doingCheckpoint : ∀ c, l.manager.checkpointer.doingCheckpoint = some c →
    l.manager.checkpointer.lastCheckpointVersion < c.lastVersion ∧ c.lastVersion < log.length ∧
      withCheckpoint c.checkpoint = replayLog log (c.lastVersion + 1)
  deltas : ∃ lo ≤ log.length,
    l.store.deltas = segment (logAt log) lo (log.length - lo) ∧ CheckpointShape l.store lo

/-! ## The files after a checkpoint -/

/-- Saving a checkpoint newer than all others and deleting below it: the delta files left are
those from just after the previous checkpoint (from the new checkpoint, when there was none),
and the new checkpoint is the newest file. -/
lemma checkpointShape_deleteUntil {store : ManifestObjectStore M F}
    {log : ℕ → RegionMetaActionList M F} {lo n e : ℕ} (c : RegionCheckpoint M F)
    (hdeltas : store.deltas = segment log lo n) (hshape : CheckpointShape store lo)
    (he : store.lastCheckpoint.getD minVersion < e) (hen : e < lo + n) :
    ∃ lo' ≤ e,
      ((store.saveCheckpoint e c).deleteUntil e true).deltas = segment log lo' (lo + n - lo') ∧
      CheckpointShape ((store.saveCheckpoint e c).deleteUntil e true) lo' ∧
      ∀ x ∈ ((store.saveCheckpoint e c).deleteUntil e true).checkpoints,
        x ∈ store.checkpoints ∨ x = (e, c) := by
  have hsub : ∀ x ∈ ((store.saveCheckpoint e c).deleteUntil e true).checkpoints,
      x ∈ store.checkpoints ∨ x = (e, c) := by
    intro x hx
    simp only [ManifestObjectStore.deleteUntil, List.mem_filter] at hx
    rcases KeyedFiles.mem_write.mp hx.1 with hx | hx
    · exact .inl hx.1
    · exact .inr hx
  have hkeep : e ∈ ((store.saveCheckpoint e c).deleteUntil e true).checkpoints.map Prod.fst := by
    simp [ManifestObjectStore.deleteUntil, KeyedFiles.mem_write]
  -- what the task keeps of the delta files, by the checkpoint below `e` it finds
  unfold CheckpointShape at hshape ⊢
  simp only [ManifestObjectStore.deleteUntil_lastCheckpoint,
    ManifestObjectStore.saveCheckpoint_lastCheckpoint]
  cases hcp : store.lastCheckpoint with
  | none =>
    rw [hcp] at hshape
    obtain ⟨rfl, hempty⟩ := hshape
    have hmax : (((store.saveCheckpoint e c).checkpoints.map Prod.fst).filter (· < e)).max? =
        none := by
      simp [hempty, KeyedFiles.write]
    obtain ⟨hd, -⟩ := (store.saveCheckpoint e c).deleteUntil_of_no_checkpoint_below hmax
    refine ⟨e, le_rfl, ?_, ⟨hkeep, by omega, fun x hx => ?_⟩, hsub⟩
    · rw [hd, ManifestObjectStore.saveCheckpoint_deltas, hdeltas,
        filter_segment log 0 n e (0 + n) _ fun x hx => ?_]
      · congr 1
        omega
      · have := fst_lt_of_mem_segment log hx
        simp only [decide_eq_decide]
        omega
    · rcases hsub x hx with hx | rfl
      · simp [hempty] at hx
      · exact le_rfl
  | some cp =>
    rw [hcp] at hshape he
    obtain ⟨hcpmem, hlocp, hall⟩ := hshape
    simp only [Option.getD_some] at he
    have hwrite : (store.saveCheckpoint e c).checkpoints = store.checkpoints ++ [(e, c)] :=
      KeyedFiles.write_of_forall_ne _ fun x hx => by have := hall x hx; omega
    have hmax : (((store.saveCheckpoint e c).checkpoints.map Prod.fst).filter (· < e)).max? =
        some cp := by
      rw [hwrite, List.max?_eq_some_iff]
      simp only [List.map_append, List.filter_append, List.mem_append, List.mem_filter,
        decide_eq_true_eq]
      refine ⟨.inl ⟨hcpmem, he⟩, fun b hb => ?_⟩
      rcases hb with ⟨hb, -⟩ | ⟨hb, hlt⟩
      · obtain ⟨x, hx, rfl⟩ := List.mem_map.mp hb
        exact hall x hx
      · simp only [List.map_cons, List.map_nil, List.mem_singleton] at hb
        omega
    obtain ⟨hd, -⟩ := (store.saveCheckpoint e c).deleteUntil_of_checkpoint_below hmax
    refine ⟨cp + 1, by omega, ?_, ⟨hkeep, by omega, fun x hx => ?_⟩, hsub⟩
    · rw [hd, ManifestObjectStore.saveCheckpoint_deltas, hdeltas,
        filter_segment log lo n (cp + 1) (lo + n) _ fun x hx => ?_]
      · congr 1 <;> omega
      · have := fst_lt_of_mem_segment log hx
        simp only [← Bool.decide_and, ← decide_not, decide_eq_decide]
        omega
    · rcases hsub x hx with hx | rfl
      · have := hall x hx
        omega
      · exact le_rfl

/-! ## The invariant along a history -/

namespace Leader

/-- A created region agrees with the log of its first `Change`. -/
lemma create_consistent (metadata : M) (options : RegionManifestOptions) :
    ∃ l, Leader.create (F := F) metadata options = .ok l ∧
      l.Consistent [[.change metadata]] := by
  refine ⟨_, rfl, ?_⟩
  constructor
  case versioned =>
    intro actions hmem
    rw [List.mem_singleton.mp hmem]
    rfl
  case metadata =>
    intro v hv
    obtain rfl : v = 0 := by simpa using hv
    rfl
  case history =>
    intro v m
    simp only [List.mem_singleton, Prod.mk.injEq, List.length_singleton]
    constructor
    · rintro ⟨rfl, rfl⟩
      exact ⟨Nat.one_pos, rfl⟩
    · rintro ⟨hv, hm⟩
      obtain rfl : v = 0 := by omega
      exact ⟨rfl, withCheckpoint_some_injective hm⟩
  case checkpoints =>
    intro e he
    simp [ManifestObjectStore.empty] at he
  case doingCheckpoint =>
    intro c hc
    simp [Checkpointer.new] at hc
  case deltas => exact ⟨0, Nat.zero_le _, rfl, rfl, rfl⟩
  all_goals rfl

variable {log : List (RegionMetaActionList M F)} {l : Leader M F}

/-- An update outside staging mode whose list sets the version adds its list to the log. -/
lemma Consistent.update (h : l.Consistent log) {actions : RegionMetaActionList M F}
    {regionState : RegionRoleState} (hstaging : regionState ≠ .leader .staging)
    (hsets : setsVersion actions) :
    (l.step (.update actions regionState)).Consistent (log ++ [actions]) := by
  have hlen := h.lastVersion
  have hold : ∀ v < log.length, replayLog (log ++ [actions]) (v + 1) = replayLog log (v + 1) :=
    fun v hv => replayLog_append _ (by omega)
  have hversioned : ∀ a ∈ log ++ [actions], setsVersion a := by
    intro a ha
    rcases List.mem_append.mp ha with ha | ha
    · exact h.versioned a ha
    · rw [List.mem_singleton.mp ha]
      exact hsets
  -- the manifest `update` builds is the replay of the longer log
  have hreplay : (withCheckpoint (some l.manager.manifest)).applyActions
      (l.manager.lastVersion + 1) actions = replayLog (log ++ [actions]) (log.length + 1) := by
    rw [replayLog_succ, replayLog_append _ le_rfl, ← h.manifest, hlen]
    simp [logAt]
  have hmeta : (replayLog (log ++ [actions]) (log.length + 1)).metadata.isSome := by
    rw [← hreplay]
    exact applyActions_metadata_isSome _ _ _ rfl
  obtain ⟨m', hm'⟩ := tryBuild_eq_ok_of_isSome hmeta
  have hwc := withCheckpoint_of_tryBuild hm'
  have hversion : m'.manifestVersion = log.length := by
    rw [manifestVersion_of_tryBuild hm']
    exact replayLog_manifestVersion hversioned (by simp)
  have hstep : l.step (.update actions regionState) =
      ⟨l.store.save (l.manager.lastVersion + 1) actions false,
        ⟨l.manager.lastVersion + 1, l.manager.checkpointer.maybeDoCheckpoint m' regionState, m',
          l.manager.stopped⟩,
        l.history ++ [(l.manager.lastVersion + 1, m')]⟩ := by
    simp only [Leader.step, RegionManifestManager.update_of_tryBuild _ _ _ _ h.running
      (hreplay ▸ hm'), decide_eq_false hstaging]
  rw [hstep]
  obtain ⟨lo, hlo, hdeltas, hshape⟩ := h.deltas
  constructor
  case versioned => exact hversioned
  case lastVersion => simp [hlen]
  case metadata =>
    intro v hv
    rw [List.length_append, List.length_singleton] at hv
    rcases Nat.lt_succ_iff_lt_or_eq.mp hv with hv | rfl
    · rw [hold v hv]
      exact h.metadata v hv
    · exact hmeta
  case manifest => simpa using hwc
  case history =>
    intro v m
    rw [List.mem_append, h.history, List.mem_singleton, Prod.mk.injEq, List.length_append,
      List.length_singleton]
    constructor
    · rintro (⟨hv, hm⟩ | ⟨rfl, rfl⟩)
      · exact ⟨by omega, by rw [hold v hv]; exact hm⟩
      · exact ⟨by omega, by rw [hwc, hlen]⟩
    · rintro ⟨hv, hm⟩
      rcases Nat.lt_succ_iff_lt_or_eq.mp hv with hv | rfl
      · exact .inl ⟨hv, by rw [← hold v hv]; exact hm⟩
      · exact .inr ⟨by omega, withCheckpoint_some_injective (hm.trans hwc.symm)⟩
  case running => exact h.running
  case checkpoints =>
    intro e he
    rw [ManifestObjectStore.save_checkpoints] at he
    obtain ⟨h1, h2, h3⟩ := h.checkpoints e he
    exact ⟨h1, by simp; omega, by rw [hold _ h2]; exact h3⟩
  case lastCheckpointVersion =>
    simpa using h.lastCheckpointVersion
  case doingCheckpoint =>
    intro c hc
    rcases Checkpointer.maybeDoCheckpoint_cases l.manager.checkpointer m' regionState with
      hsame | ⟨-, hlt, hnew⟩
    · rw [hsame] at hc ⊢
      obtain ⟨h1, h2, h3⟩ := h.doingCheckpoint c hc
      exact ⟨h1, by simp; omega, by rw [hold _ h2]; exact h3⟩
    · rw [hnew] at hc ⊢
      obtain rfl := Option.some.inj hc
      exact ⟨hlt, by simp [hversion], by simpa [hversion] using hwc⟩
  case deltas =>
    have hcongr : ∀ v, lo ≤ v → v < lo + (log.length - lo) →
        logAt log v = logAt (log ++ [actions]) v :=
      fun v _ hv => (logAt_append_of_lt _ (by omega)).symm
    have hlast : logAt (log ++ [actions]) (lo + (log.length - lo)) = actions := by
      simp [logAt, show lo + (log.length - lo) = log.length by omega]
    have hwrite := write_segment (logAt (log ++ [actions])) lo (log.length - lo)
    rw [hlast, show lo + (log.length - lo) = l.manager.lastVersion + 1 by omega] at hwrite
    refine ⟨lo, by simp; omega, ?_, ?_⟩
    · rw [ManifestObjectStore.save_deltas, hdeltas, segment_congr _ hcongr, hwrite]
      congr 1
      simp
      omega
    · unfold CheckpointShape at hshape ⊢
      simpa using hshape

/-- The checkpoint task keeps the leader consistent with its log. -/
lemma Consistent.checkpointTask (h : l.Consistent log) :
    (l.step .checkpointTask).Consistent log := by
  cases hdoing : l.manager.checkpointer.doingCheckpoint with
  | none =>
    have hstep : l.step .checkpointTask = l := by
      simp [Leader.step, Checkpointer.runCheckpointTask, hdoing]
    rw [hstep]
    exact h
  | some c =>
    obtain ⟨hlt, hclen, hcwc⟩ := h.doingCheckpoint c hdoing
    obtain ⟨lo, hlo, hdeltas, hshape⟩ := h.deltas
    obtain ⟨lo', hlo', hdeltas', hshape', hsub⟩ := checkpointShape_deleteUntil c hdeltas hshape
      (by rw [← h.lastCheckpointVersion]; exact hlt) (by omega)
    have hstep : l.step .checkpointTask =
        { l with
          store := (l.store.saveCheckpoint c.lastVersion c).deleteUntil c.lastVersion true
          manager := { l.manager with
            checkpointer := { l.manager.checkpointer with
              lastCheckpointVersion := c.lastVersion, doingCheckpoint := none } } } := by
      simp [Leader.step, Checkpointer.runCheckpointTask, hdoing]
    rw [hstep]
    constructor
    case versioned => exact h.versioned
    case lastVersion => exact h.lastVersion
    case metadata => exact h.metadata
    case manifest => exact h.manifest
    case history => exact h.history
    case running => exact h.running
    case checkpoints =>
      intro e he
      rcases hsub e he with he | rfl
      · exact h.checkpoints e he
      · exact ⟨rfl, hclen, hcwc⟩
    case lastCheckpointVersion => rfl
    case doingCheckpoint => simp
    case deltas =>
      refine ⟨lo', by omega, ?_, hshape'⟩
      rw [hdeltas']
      congr 1
      omega

/-- Along a history of events that keep versions, the leader stays consistent with the log
extended by every update's list. -/
lemma Consistent.run (h : l.Consistent log) (events : List (LeaderEvent M F))
    (hevents : ∀ e ∈ events, e.keepsVersions) :
    (l.run events).Consistent (log ++ events.flatMap LeaderEvent.logged) := by
  induction events generalizing l log with
  | nil => simpa using h
  | cons e events ih =>
    rw [run_cons, List.flatMap_cons, ← List.append_assoc]
    refine ih ?_ fun x hx => hevents x (List.mem_cons_of_mem _ hx)
    have he := hevents e List.mem_cons_self
    cases e with
    | update actions regionState =>
      simp only [LeaderEvent.keepsVersions, Bool.and_eq_true, Bool.not_eq_true',
        decide_eq_false_iff_not] at he
      exact h.update he.1 he.2
    | checkpointTask => simpa [LeaderEvent.logged] using h.checkpointTask

/-! ## Reading the files back -/

/-- The replay of the log from a version on, over the manifest of the versions before. -/
lemma replay_replayLog (log : List (RegionMetaActionList M F)) (s n : ℕ) :
    replay applyActions (replayLog log s) (segment (logAt log) s n) = replayLog log (s + n) := by
  unfold replayLog
  rw [replay_segment_add, Nat.zero_add]

/-- Replaying the delta files of the versions `[s, t]` over the manifest of the versions below
`s` installs the leader's manifest of version `t`. -/
lemma Consistent.installManifests_segment (h : l.Consistent log)
    (mgr : RegionManifestManager M F) (lastVersion : ℕ) {s t : ℕ}
    (hmgr : withCheckpoint (some mgr.manifest) = replayLog log s) (hst : s ≤ t)
    (ht : t < log.length) :
    ∃ m, (t, m) ∈ l.history ∧
      mgr.installManifests (segment (logAt log) s (t + 1 - s)) lastVersion t =
        ({ mgr with manifest := m, lastVersion := t }, .ok t) := by
  have hreplay : replay applyActions (withCheckpoint (some mgr.manifest))
      (segment (logAt log) s (t + 1 - s)) = replayLog log (t + 1) := by
    rw [hmgr, replay_replayLog]
    congr 1
    omega
  obtain ⟨m, hm⟩ := tryBuild_eq_ok_of_isSome (h.metadata t ht)
  have hversion : m.manifestVersion = t := by
    rw [manifestVersion_of_tryBuild hm]
    exact replayLog_manifestVersion h.versioned ht
  have hne : segment (logAt log) s (t + 1 - s) ≠ [] := by
    rw [Ne, segment_eq_nil_iff]
    omega
  refine ⟨m, (h.history t m).mpr ⟨ht, withCheckpoint_of_tryBuild hm⟩, ?_⟩
  rw [RegionManifestManager.installManifests_of_tryBuild mgr hne (by rw [hreplay]; exact hm)
    hversion.ge, hversion]

/-- The last checkpoint of a consistent leader, and the manifest it holds. -/
lemma Consistent.lastCheckpoint (h : l.Consistent log) {cp : ℕ}
    (hcp : l.store.lastCheckpoint = some cp) (hmem : cp ∈ l.store.checkpoints.map Prod.fst) :
    ∃ c m, l.store.loadLastCheckpoint = some c ∧ c.lastVersion = cp ∧ cp < log.length ∧
      (withCheckpoint c.checkpoint).tryBuild = .ok m ∧ m.manifestVersion = cp ∧
      withCheckpoint c.checkpoint = replayLog log (cp + 1) := by
  obtain ⟨c, hload⟩ := Option.isSome_iff_exists.mp
    (ManifestObjectStore.loadLastCheckpoint_isSome hcp hmem)
  obtain ⟨v, hv, hcmem⟩ := ManifestObjectStore.mem_of_loadLastCheckpoint hload
  obtain rfl : v = cp := Option.some.inj (hv.symm.trans hcp)
  obtain ⟨hcv, hvlen, hcwc⟩ := h.checkpoints _ hcmem
  obtain ⟨m, hm⟩ := tryBuild_eq_ok_of_isSome (hcwc ▸ h.metadata v hvlen)
  have hversion : m.manifestVersion = v := by
    rw [manifestVersion_of_tryBuild hm, hcwc]
    exact replayLog_manifestVersion h.versioned hvlen
  exact ⟨c, m, hload, hcv, hvlen, hm, hversion, hcwc⟩

/-- `open` on a consistent leader's files rebuilds the leader's manifest and version. -/
lemma Consistent.open (h : l.Consistent log) (hbound : log.length ≤ maxVersion)
    (options : RegionManifestOptions) :
    ∃ mgr, RegionManifestManager.open options l.store = .ok (some mgr) ∧
      mgr.manifest = l.manager.manifest ∧ mgr.lastVersion = l.manager.lastVersion := by
  have hlen := h.lastVersion
  have hfinal : (replayLog log log.length).tryBuild = .ok l.manager.manifest := by
    rw [← h.manifest]
    rfl
  have hversion : l.manager.manifest.manifestVersion = l.manager.lastVersion := by
    rw [manifestVersion_of_tryBuild hfinal, ← hlen]
    exact replayLog_manifestVersion h.versioned (by omega)
  obtain ⟨lo, hlo, hdeltas, hshape⟩ := h.deltas
  unfold CheckpointShape at hshape
  cases hcp : l.store.lastCheckpoint with
  | none =>
    rw [hcp] at hshape
    obtain ⟨rfl, -⟩ := hshape
    have hload : l.store.loadLastCheckpoint = none := by
      simp [ManifestObjectStore.loadLastCheckpoint, hcp]
    have hscan : VersionedFiles.scan l.store.deltas minVersion maxVersion =
        segment (logAt log) 0 log.length := by
      rw [hdeltas, scan_segment]
      simp only [minVersion, max_self, Nat.zero_add, Nat.sub_zero, min_eq_left hbound]
    refine ⟨_, RegionManifestManager.open_of_no_checkpoint options hload ?_, rfl, hversion⟩
    rw [hscan]
    exact hfinal
  | some cp =>
    rw [hcp] at hshape
    obtain ⟨hcpmem, hlocp, -⟩ := hshape
    obtain ⟨c, m, hload, rfl, hcplen, -, -, hcwc⟩ := h.lastCheckpoint hcp hcpmem
    have hscan : VersionedFiles.scan l.store.deltas (c.lastVersion + 1) maxVersion =
        segment (logAt log) (c.lastVersion + 1) (log.length - (c.lastVersion + 1)) := by
      rw [hdeltas, scan_segment]
      congr 1 <;> omega
    have hreplay : replay applyActions (withCheckpoint c.checkpoint)
        (segment (logAt log) (c.lastVersion + 1) (log.length - (c.lastVersion + 1))) =
          replayLog log log.length := by
      rw [hcwc, replay_replayLog]
      congr 1
      omega
    refine ⟨_, RegionManifestManager.open_of_checkpoint options hload (by omega) ?_, rfl, hversion⟩
    rw [hscan, hreplay]
    exact hfinal

/-- A follower at one of the leader's versions that installs up to a version the leader has
reached ends at one of the leader's manifests, of a version at least the target. -/
lemma Consistent.installManifestTo (h : l.Consistent log) (follower : RegionManifestManager M F)
    (hfollower : (follower.lastVersion, follower.manifest) ∈ l.history)
    (hrunning : follower.stopped = false) {t : ℕ} (ht : t ≤ l.manager.lastVersion) :
    ∃ u, t ≤ u ∧ (follower.installManifestTo l.store t).2 = .ok u ∧
      (u, (follower.installManifestTo l.store t).1.manifest) ∈ l.history := by
  obtain ⟨hv, hfwc⟩ := (h.history _ _).mp hfollower
  have hlen := h.lastVersion
  by_cases hvt : t ≤ follower.lastVersion
  · rw [RegionManifestManager.installManifestTo_of_le _ _ hvt]
    exact ⟨_, hvt, rfl, hfollower⟩
  have hvt : follower.lastVersion < t := by omega
  obtain ⟨lo, hlo, hdeltas, hshape⟩ := h.deltas
  have hfetch : l.store.fetchManifestsStrictFrom (follower.lastVersion + 1) (t + 1) = _ :=
    ManifestObjectStore.fetchManifestsStrictFrom_segment hdeltas (by omega) (by omega)
  by_cases hlov : lo ≤ follower.lastVersion + 1
  · -- the delta files after the follower's version are all there
    rw [if_pos hlov] at hfetch
    obtain ⟨m, hm, hinstall⟩ :=
      h.installManifests_segment follower follower.lastVersion hfwc hvt (by omega)
    have hne : segment (logAt log) (follower.lastVersion + 1)
        (t + 1 - (follower.lastVersion + 1)) ≠ [] := by
      rw [Ne, segment_eq_nil_iff]
      omega
    rw [RegionManifestManager.installManifestTo_of_fetch follower l.store hvt hrunning hfetch hne,
      hinstall]
    exact ⟨t, le_rfl, rfl, hm⟩
  -- the first of them is gone: the follower goes through the last checkpoint
  rw [if_neg hlov] at hfetch
  unfold CheckpointShape at hshape
  cases hcp : l.store.lastCheckpoint with
  | none =>
    rw [hcp] at hshape
    omega
  | some cp =>
    rw [hcp] at hshape
    obtain ⟨hcpmem, hlocp, -⟩ := hshape
    obtain ⟨c, m, hload, -, hcplen, hm, hmv, hcwc⟩ := h.lastCheckpoint hcp hcpmem
    have hmwc : withCheckpoint (some m) = replayLog log (cp + 1) :=
      (withCheckpoint_of_tryBuild hm).trans hcwc
    have hinstall := RegionManifestManager.installLastCheckpoint_of_load follower hload hm
    rw [hmv] at hinstall
    by_cases hcpt : t ≤ cp
    · rw [RegionManifestManager.installManifestTo_of_checkpoint follower l.store hvt hrunning
        hfetch hinstall hcpt]
      exact ⟨cp, hcpt, rfl, (h.history cp m).mpr ⟨hcplen, hmwc⟩⟩
    · have hfetch' : l.store.fetchManifestsStrictFrom (cp + 1) (t + 1) = _ :=
        ManifestObjectStore.fetchManifestsStrictFrom_segment hdeltas (by omega) (by omega)
      rw [if_pos hlocp] at hfetch'
      obtain ⟨m', hm', hinstall'⟩ := h.installManifests_segment
        { follower with lastVersion := cp, manifest := m } follower.lastVersion hmwc
        (show cp + 1 ≤ t by omega) (by omega)
      rw [RegionManifestManager.installManifestTo_of_checkpoint_fetch follower l.store hvt
        hrunning hfetch hinstall (show cp < t by omega) hfetch', hinstall']
      exact ⟨t, le_rfl, rfl, hm'⟩

end Leader

/-! ## Recovery -/

/-- For every history of updates outside staging mode whose action lists set the version,
interleaved with checkpoints, `open` on the files rebuilds the leader's manifest, and a
follower at any of the leader's versions that installs up to a version the leader has reached
gets the leader's manifest of a version at least that one. -/
theorem manifestManager_recovers_leader (options : RegionManifestOptions) (metadata : M)
    (events : List (LeaderEvent M F)) (hevents : ∀ e ∈ events, e.keepsVersions)
    (hbound : events.length < maxVersion) :
    ∃ leader, Leader.create metadata options = .ok leader ∧
      (∃ mgr, RegionManifestManager.open options (leader.run events).store = .ok (some mgr) ∧
        mgr.manifest = (leader.run events).manager.manifest ∧
        mgr.lastVersion = (leader.run events).manager.lastVersion) ∧
      ∀ (follower : RegionManifestManager M F) (t : ℕ),
        (follower.lastVersion, follower.manifest) ∈ (leader.run events).history →
        follower.stopped = false → t ≤ (leader.run events).manager.lastVersion →
        ∃ u, t ≤ u ∧ (follower.installManifestTo (leader.run events).store t).2 = .ok u ∧
          (u, (follower.installManifestTo (leader.run events).store t).1.manifest) ∈
            (leader.run events).history := by
  obtain ⟨leader, hcreate, hconsistent⟩ := Leader.create_consistent (F := F) metadata options
  have hrun := hconsistent.run events hevents
  have hlen : ([[RegionMetaAction.change metadata]] ++ events.flatMap LeaderEvent.logged).length ≤
      maxVersion := by
    have := LeaderEvent.length_flatMap_logged_le events
    simp only [List.length_append, List.length_singleton]
    omega
  exact ⟨leader, hcreate, hrun.open hlen options,
    fun follower t hfollower hrunning ht => hrun.installManifestTo follower hfollower hrunning ht⟩

/-- Two edits and a checkpoint between them, with a checkpoint every version. -/
def editsWithCheckpoint : List (LeaderEvent ℕ ℕ) :=
  [.update [.edit ⟨[(1, 7)], [], none, some 4, some 4⟩] (.leader .writable), .checkpointTask,
    .update [.edit ⟨[(2, 8)], [1], none, some 9, some 9⟩] (.leader .editing)]

theorem manifestManager_recovers_leader_editsWithCheckpoint :
    (∀ e ∈ editsWithCheckpoint, e.keepsVersions) ∧ editsWithCheckpoint.length < maxVersion ∧
    ∃ leader, Leader.create 0 ⟨1⟩ = .ok leader ∧
      (∃ mgr, RegionManifestManager.open ⟨1⟩ (leader.run editsWithCheckpoint).store =
          .ok (some mgr) ∧
        mgr.manifest = (leader.run editsWithCheckpoint).manager.manifest ∧
        mgr.lastVersion = (leader.run editsWithCheckpoint).manager.lastVersion) ∧
      ∀ (follower : RegionManifestManager ℕ ℕ) (t : ℕ),
        (follower.lastVersion, follower.manifest) ∈ (leader.run editsWithCheckpoint).history →
        follower.stopped = false → t ≤ (leader.run editsWithCheckpoint).manager.lastVersion →
        ∃ u, t ≤ u ∧
          (follower.installManifestTo (leader.run editsWithCheckpoint).store t).2 = .ok u ∧
          (u, (follower.installManifestTo (leader.run editsWithCheckpoint).store t).1.manifest) ∈
            (leader.run editsWithCheckpoint).history :=
  ⟨by decide, by decide,
    manifestManager_recovers_leader ⟨1⟩ 0 editsWithCheckpoint (by decide) (by decide)⟩

/-- An edit made in staging mode. -/
def stagingEdit : List (LeaderEvent ℕ ℕ) :=
  [.update [.edit ⟨[], [], none, some 3, none⟩] (.leader .staging)]

/-- An update whose list holds a `Remove` only. -/
def removeOnly : List (LeaderEvent ℕ ℕ) :=
  [.update [.remove] (.leader .writable)]

/-- After an edit in staging mode, `open` rebuilds a manifest without it; and after an update
of a lone `Remove`, a follower opened on the region as created cannot install the version the
update returned. -/
theorem manifestManager_staging_remove_diverge :
    (∃ leader, Leader.create (F := ℕ) 0 ⟨10⟩ = .ok leader ∧
      ∃ mgr, RegionManifestManager.open ⟨10⟩ (leader.run stagingEdit).store = .ok (some mgr) ∧
        mgr.manifest ≠ (leader.run stagingEdit).manager.manifest) ∧
    (∃ leader, Leader.create (F := ℕ) 0 ⟨10⟩ = .ok leader ∧
      ∃ follower, RegionManifestManager.open ⟨10⟩ leader.store = .ok (some follower) ∧
        (follower.lastVersion, follower.manifest) ∈ (leader.run removeOnly).history ∧
        follower.stopped = false ∧ 1 ≤ (leader.run removeOnly).manager.lastVersion ∧
        (follower.installManifestTo (leader.run removeOnly).store 1).2 =
          .error (.installManifestTo 1 0 0)) :=
  ⟨⟨_, rfl, _, rfl, by decide⟩, ⟨_, rfl, _, rfl, by decide, rfl, by decide, rfl⟩⟩

end Greptime
