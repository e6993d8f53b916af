/-
The content diff of a checkpoint with the project, and the restore plan for the same scan.
-/
import CheckPo.PlanBuilding
import CheckPo.SnapshotRoundTrip

namespace CheckPo

structure DiffResult where
  added : List String
  modified : List String
  deleted : List String
  unknown : List String
  unchangedCount : Nat
  complete : Bool
  warnings : List String
deriving DecidableEq

section Maps

variable {α : Type}

/-- A map collected from entries; the last one of a path counts. -/
def mapGet (entries : List (TrackedUnityFilePath × α)) (path : TrackedUnityFilePath) : Option α :=
  (entries.reverse.find? fun entry => entry.1 == path).map Prod.snd

def mapKeys (entries : List (TrackedUnityFilePath × α)) : Finset TrackedUnityFilePath :=
  (entries.map Prod.fst).toFinset

variable [DecidableEq α]

/-- One turn of the loop of `compare_maps`. -/
def comparePath (snapshotMap workingMap : List (TrackedUnityFilePath × α)) (incomplete : Bool)
    (diff : DiffResult) (path : TrackedUnityFilePath) : DiffResult :=
  match mapGet snapshotMap path, mapGet workingMap path with
  | none, some _ => { diff with added := diff.added ++ [path.text] }
  | some _, none =>
      if incomplete = true then { diff with unknown := diff.unknown ++ [path.text] }
      else { diff with deleted := diff.deleted ++ [path.text] }
  | some expected, some actual =>
      if expected ≠ actual then { diff with modified := diff.modified ++ [path.text] }
      else { diff with unchangedCount := diff.unchangedCount + 1 }
  | none, none => diff

def compareMaps (snapshotMap workingMap : List (TrackedUnityFilePath × α)) (incomplete : Bool) :
    DiffResult :=
  ((mapKeys snapshotMap ∪ mapKeys workingMap).sort (· ≤ ·)).foldl
    (comparePath snapshotMap workingMap incomplete)
    { added := []
      modified := []
      deleted := []
      unknown := []
      unchangedCount := 0
      complete := !incomplete
      warnings := [] }

end Maps

/-- `diff_checkpoint_with_options`, from the loaded checkpoint and the scan. -/
def diffCheckpoint (snapshot : SnapshotFile)
    (working : List (TrackedUnityFilePath × CurrentFileState)) (warnings : List String)
    (incomplete : Bool) : DiffResult :=
  let snapshotMap := snapshot.files.map fun file =>
    (file.path, (file.contentHash, file.modifiedAtUtc))
  let workingMap := working.map fun entry => (entry.1, (entry.2.hash, entry.2.modifiedAtUtc))
  { compareMaps snapshotMap workingMap incomplete with warnings := warnings }

/-! The classes of the diff. -/

section Classes

variable {α : Type} [DecidableEq α] {snapshotMap workingMap : List (TrackedUnityFilePath × α)}

def isAdded (snapshotMap workingMap : List (TrackedUnityFilePath × α))
    (path : TrackedUnityFilePath) : Bool :=
  (mapGet snapshotMap path).isNone && (mapGet workingMap path).isSome

def isDeleted (snapshotMap workingMap : List (TrackedUnityFilePath × α))
    (path : TrackedUnityFilePath) : Bool :=
  (mapGet snapshotMap path).isSome && (mapGet workingMap path).isNone

def isModified (snapshotMap workingMap : List (TrackedUnityFilePath × α))
    (path : TrackedUnityFilePath) : Bool :=
  (mapGet snapshotMap path).isSome && (mapGet workingMap path).isSome &&
    mapGet snapshotMap path != mapGet workingMap path

theorem foldl_comparePath (paths : List TrackedUnityFilePath) (diff : DiffResult) :
    let result := paths.foldl (comparePath snapshotMap workingMap false) diff
    result.added = diff.added ++
        (paths.filter (isAdded snapshotMap workingMap)).map TrackedUnityFilePath.text ∧
      result.modified = diff.modified ++
        (paths.filter (isModified snapshotMap workingMap)).map TrackedUnityFilePath.text ∧
      result.deleted = diff.deleted ++
        (paths.filter (isDeleted snapshotMap workingMap)).map TrackedUnityFilePath.text ∧
      result.unknown = diff.unknown := by
  induction paths generalizing diff with
  | nil => simp
  | cons path rest ih =>
      simp only [List.foldl_cons, List.filter_cons] at ih ⊢
      rcases ih (comparePath snapshotMap workingMap false diff path) with
        ⟨hadded, hmodified, hdeleted, hunknown⟩
      rw [hadded, hmodified, hdeleted, hunknown]
      rcases hsnapshot : mapGet snapshotMap path with _ | expected <;>
        rcases hworking : mapGet workingMap path with _ | actual
      · simp [comparePath, isAdded, isModified, isDeleted, hsnapshot, hworking]
      · simp [comparePath, isAdded, isModified, isDeleted, hsnapshot, hworking]
      · simp [comparePath, isAdded, isModified, isDeleted, hsnapshot, hworking]
      · by_cases hequal : expected = actual
        · simp [comparePath, isAdded, isModified, isDeleted, hsnapshot, hworking, hequal]
        · simp [comparePath, isAdded, isModified, isDeleted, hsnapshot, hworking, hequal]

/-- A complete diff lists the paths of each class in their order. -/
theorem compareMaps_complete :
    let paths := (mapKeys snapshotMap ∪ mapKeys workingMap).sort (· ≤ ·)
    let diff := compareMaps snapshotMap workingMap false
    diff.added = (paths.filter (isAdded snapshotMap workingMap)).map TrackedUnityFilePath.text ∧
      diff.modified =
        (paths.filter (isModified snapshotMap workingMap)).map TrackedUnityFilePath.text ∧
      diff.deleted =
        (paths.filter (isDeleted snapshotMap workingMap)).map TrackedUnityFilePath.text ∧
      diff.unknown = [] := by
  apply foldl_comparePath

end Classes

/-! The restore plan. -/

section Restore

variable {snapshot : SnapshotFile} {working : List (TrackedUnityFilePath × CurrentFileState)}

/-- What a restore does at a path. -/
def restoreChange (snapshot : SnapshotFile)
    (working : List (TrackedUnityFilePath × CurrentFileState)) (path : TrackedUnityFilePath) :
    Option FileOperation :=
  fileOperation path (snapshot.fileAt path) (mapGet working path)

variable (hfiles : snapshot.files.Pairwise fun left right => left.path < right.path)
include hfiles

theorem fileAt_of_mem {file : SnapshotEntry} (hfile : file ∈ snapshot.files) :
    snapshot.fileAt file.path = some file := by
  rcases Option.isSome_iff_exists.mp (fileAt_isSome_iff.mpr
    (List.mem_toFinset.mpr (List.mem_map_of_mem hfile))) with ⟨found, hfound⟩
  have hfind := hfound
  rw [SnapshotFile.fileAt] at hfind
  have hmem := List.mem_reverse.mp (List.mem_of_find?_eq_some hfind)
  have hpath : found.path = file.path := by simpa using List.find?_some hfind
  have hnodup : (snapshot.files.map SnapshotEntry.path).Nodup :=
    List.pairwise_map.mpr (hfiles.imp ne_of_lt)
  rw [hfound, List.inj_on_of_nodup_map hnodup hmem hfile hpath]

theorem mem_restoreOperations {operation : FileOperation} :
    operation ∈ restoreOperations snapshot working ↔
      ∃ path ∈ snapshot.pathSet ∪ mapKeys working,
        restoreChange snapshot working path = some operation := by
  rw [restoreOperations, List.mem_append, List.mem_filterMap, List.mem_filterMap]
  constructor
  · rintro (⟨file, hfile, hchange⟩ | ⟨path, hpath, hchange⟩)
    · refine ⟨file.path, Finset.mem_union_left _
        (List.mem_toFinset.mpr (List.mem_map_of_mem hfile)), ?_⟩
      rw [restoreChange, fileAt_of_mem hfiles hfile]
      exact hchange
    · rw [Finset.mem_sort] at hpath
      refine ⟨path, Finset.mem_union_right _ hpath, ?_⟩
      split at hchange
      · cases hchange
      · next hnone =>
          rw [restoreChange, hnone]
          exact hchange
  · rintro ⟨path, hpath, hchange⟩
    rcases hfile : snapshot.fileAt path with _ | file
    · rcases Finset.mem_union.mp hpath with hsnapshot | hworking
      · rw [← fileAt_isSome_iff, hfile] at hsnapshot
        cases hsnapshot
      · refine Or.inr ⟨path, (Finset.mem_sort _).mpr hworking, ?_⟩
        rw [restoreChange, hfile] at hchange
        simp only [hfile]
        exact hchange
    · rw [restoreChange, hfile] at hchange
      rw [SnapshotFile.fileAt] at hfile
      have hmem := List.mem_reverse.mp (List.mem_of_find?_eq_some hfile)
      have hname : file.path = path := by simpa using List.find?_some hfile
      exact Or.inl ⟨file, hmem, hname ▸ hchange⟩

theorem restoreOperations_pairwise :
    (restoreOperations snapshot working).Pairwise fun left right => left.path ≠ right.path := by
  rw [restoreOperations, List.pairwise_append]
  refine ⟨?_, ?_, ?_⟩
  · rw [List.pairwise_filterMap]
    apply hfiles.imp
    intro left right hlt first hfirst second hsecond
    rw [(fileOperation_fields hfirst).1, (fileOperation_fields hsecond).1]
    exact ne_of_lt hlt
  · rw [List.pairwise_filterMap]
    apply (Finset.sort_nodup _ (· ≤ ·)).imp
    intro left right hne first hfirst second hsecond
    split at hfirst
    · cases hfirst
    · split at hsecond
      · cases hsecond
      · rw [(fileOperation_fields hfirst).1, (fileOperation_fields hsecond).1]
        exact hne
  · intro first hfirst second hsecond heq
    rcases List.mem_filterMap.mp hfirst with ⟨file, hfile, hchange⟩
    rcases List.mem_filterMap.mp hsecond with ⟨path, -, hother⟩
    split at hother
    · cases hother
    · next hnone =>
        rw [(fileOperation_fields hchange).1, (fileOperation_fields hother).1] at heq
        rw [← heq, fileAt_of_mem hfiles hfile] at hnone
        cases hnone

/-- The sorted operations, path by path. -/
theorem sortOperations_restore :
    sortOperations (restoreOperations snapshot working) =
      ((snapshot.pathSet ∪ mapKeys working).sort (· ≤ ·)).filterMap
        (restoreChange snapshot working) := by
  have hsorted : (sortOperations (restoreOperations snapshot working)).Pairwise
      fun left right => left.path ≤ right.path := by
    have h := @List.pairwise_mergeSort FileOperation
      (fun left right => decide (left.path ≤ right.path))
      (fun a b c => by simpa using le_trans) (fun a b => by simpa using le_total _ _)
      (restoreOperations snapshot working)
    simpa [sortOperations] using h
  have hperm : (sortOperations (restoreOperations snapshot working)).Perm
      (restoreOperations snapshot working) := List.mergeSort_perm _ _
  have hdistinct : (sortOperations (restoreOperations snapshot working)).Pairwise
      fun left right => left.path ≠ right.path :=
    hperm.symm.pairwise (restoreOperations_pairwise hfiles) fun h => h.symm
  have hplanned : (((snapshot.pathSet ∪ mapKeys working).sort (· ≤ ·)).filterMap
      (restoreChange snapshot working)).Pairwise fun left right => left.path < right.path := by
    rw [List.pairwise_filterMap]
    apply (Finset.sortedLT_sort _).pairwise.imp
    intro left right hlt first hfirst second hsecond
    rw [(fileOperation_fields hfirst).1, (fileOperation_fields hsecond).1]
    exact hlt
  have hincreasing := (hsorted.and hdistinct).imp fun h => lt_of_le_of_ne h.1 h.2
  refine List.Perm.eq_of_pairwise ?_ hincreasing hplanned ?_
  · intro left right _ _ hlt hgt
    exact absurd hgt hlt.asymm
  · rw [List.perm_ext_iff_of_nodup
      (hincreasing.imp fun hlt heq => absurd (heq ▸ hlt) (lt_irrefl _))
      (hplanned.imp fun hlt heq => absurd (heq ▸ hlt) (lt_irrefl _))]
    intro operation
    rw [hperm.mem_iff, mem_restoreOperations hfiles, List.mem_filterMap]
    simp only [Finset.mem_sort]

end Restore

/-! Both, path by path. -/

section Agreement

variable {snapshot : SnapshotFile} {working : List (TrackedUnityFilePath × CurrentFileState)}

/-- The maps that the diff compares. -/
def snapshotDiffMap (snapshot : SnapshotFile) :
    List (TrackedUnityFilePath × ObjectId × String) :=
  snapshot.files.map fun file => (file.path, (file.contentHash, file.modifiedAtUtc))

def workingDiffMap (working : List (TrackedUnityFilePath × CurrentFileState)) :
    List (TrackedUnityFilePath × ObjectId × String) :=
  working.map fun entry => (entry.1, (entry.2.hash, entry.2.modifiedAtUtc))

theorem mapGet_snapshotDiffMap (path : TrackedUnityFilePath) :
    mapGet (snapshotDiffMap snapshot) path =
      (snapshot.fileAt path).map fun file => (file.contentHash, file.modifiedAtUtc) := by
  rw [mapGet, snapshotDiffMap, SnapshotFile.fileAt, ← List.map_reverse, List.find?_map,
    Option.map_map]
  rfl

theorem mapGet_workingDiffMap (path : TrackedUnityFilePath) :
    mapGet (workingDiffMap working) path =
      (mapGet working path).map fun state => (state.hash, state.modifiedAtUtc) := by
  rw [mapGet, workingDiffMap, mapGet, ← List.map_reverse, List.find?_map, Option.map_map,
    Option.map_map]
  rfl

theorem diffKeys_eq :
    mapKeys (snapshotDiffMap snapshot) ∪ mapKeys (workingDiffMap working) =
      snapshot.pathSet ∪ mapKeys working := by
  simp only [mapKeys, snapshotDiffMap, workingDiffMap, SnapshotFile.pathSet, List.map_map]
  rfl

/-- A path is in the class of the diff that its operation belongs to. -/
theorem restoreChange_class (path : TrackedUnityFilePath) :
    isAdded (snapshotDiffMap snapshot) (workingDiffMap working) path =
        (restoreChange snapshot working path).any (fun operation =>
          operation.operationType == .delete) ∧
      isDeleted (snapshotDiffMap snapshot) (workingDiffMap working) path =
        (restoreChange snapshot working path).any (fun operation =>
          operation.operationType == .restore) ∧
      isModified (snapshotDiffMap snapshot) (workingDiffMap working) path =
        (restoreChange snapshot working path).any (fun operation =>
          operation.operationType == .replace || operation.operationType == .setMetadata) := by
  simp only [isAdded, isDeleted, isModified, mapGet_snapshotDiffMap, mapGet_workingDiffMap,
    restoreChange]
  rcases snapshot.fileAt path with _ | file <;> rcases mapGet working path with _ | state
  · exact ⟨rfl, rfl, rfl⟩
  · exact ⟨rfl, rfl, rfl⟩
  · exact ⟨rfl, rfl, rfl⟩
  · by_cases hhash : state.hash = file.contentHash
    · by_cases htime : state.modifiedAtUtc = file.modifiedAtUtc
      · simp [fileOperation, hhash, htime]
      · simp [fileOperation, hhash, htime, Ne.symm htime]
    · simp [fileOperation, hhash, Ne.symm hhash]

/-- The paths of the operations of a kind are the paths that have one. -/
theorem map_path_filter_filterMap {change : TrackedUnityFilePath → Option FileOperation}
    (hchange : ∀ path operation, change path = some operation → operation.path = path)
    (wanted : FileOperation → Bool) (paths : List TrackedUnityFilePath) :
    ((paths.filterMap change).filter wanted).map FileOperation.path =
      paths.filter fun path => (change path).any wanted := by
  induction paths with
  | nil => rfl
  | cons path rest ih =>
      rcases hpath : change path with _ | operation
      · rw [List.filterMap_cons_none hpath, ih, List.filter_cons, hpath]
        rfl
      · rw [List.filterMap_cons_some hpath, List.filter_cons, List.filter_cons, hpath,
          Option.any_some]
        split
        · rw [List.map_cons, ih, hchange path operation hpath]
        · exact ih

end Agreement

/-- The paths of the operations of some kinds. -/
def OperationPlan.pathsOf (plan : OperationPlan) (kinds : List FileOperationType) : List String :=
  (plan.operations.filter fun operation => kinds.contains operation.operationType).map
    fun operation => operation.path.text

/-- Each operation is of one of the three classes. -/
theorem OperationPlan.pathsOf_perm (plan : OperationPlan) :
    (plan.pathsOf [.delete] ++ plan.pathsOf [.replace, .setMetadata] ++
      plan.pathsOf [.restore]).Perm
        (plan.operations.map fun operation => operation.path.text) := by
  simp only [OperationPlan.pathsOf, ← List.map_append]
  apply List.Perm.map
  rw [List.perm_iff_count]
  intro operation
  have hcount : ∀ kinds : List FileOperationType,
      (plan.operations.filter fun operation =>
        kinds.contains operation.operationType).count operation =
      if kinds.contains operation.operationType = true then plan.operations.count operation
      else 0 := by
    intro kinds
    split
    · next hkind => exact List.count_filter hkind
    · next hkind =>
        rw [List.count_eq_zero, List.mem_filter]
        exact fun h => hkind h.2
  rw [List.count_append, List.count_append, hcount, hcount, hcount]
  rcases operation.operationType <;> simp

/-- A complete diff and the restore plan for the same scan name the same paths. -/
theorem diff_agrees_with_restorePlan {chrono : Chrono} {tables : UnicodeTables}
    {canonicalUtc : Timestamp → String} {blake3 : Bytes → Digest32} {tree : WorkingTree}
    {load : SnapshotId → CheckPoResult SnapshotFile} {scan : ProjectScan}
    {authorizationOf : OperationPlan → CheckPoResult String} {checkpointId : SnapshotId}
    {snapshot : SnapshotFile} {working : List (TrackedUnityFilePath × CurrentFileState)}
    {warnings : List String} {selected : Option (List TrackedUnityFilePath)}
    {plan : OperationPlan}
    (hvalid : validateSnapshotFile chrono tables checkpointId snapshot = .ok ())
    (hload : load checkpointId = .ok snapshot) (hscan : scan snapshot = .ok (working, warnings))
    (hbuild : buildPlan canonicalUtc blake3 tree load scan authorizationOf checkpointId .restore
      selected = .ok plan) :
    let diff := diffCheckpoint snapshot working warnings false
    diff.added = plan.pathsOf [.delete] ∧
      diff.deleted = plan.pathsOf [.restore] ∧
      diff.modified = plan.pathsOf [.replace, .setMetadata] ∧
      diff.unknown = [] ∧
      (diff.added ++ diff.modified ++ diff.deleted).Nodup ∧
      (diff.added ++ diff.modified ++ diff.deleted = [] ↔ plan.operations = []) := by
  have hfiles : snapshot.files.Pairwise fun left right => left.path < right.path := by
    rcases validateSnapshotFile_eq_ok.mp hvalid with ⟨-, -, -, -, horder, -⟩
    exact List.pairwise_map.mp (validateFileOrder_eq_ok.mp horder)
  have hoperations : plan.operations =
      ((snapshot.pathSet ∪ mapKeys working).sort (· ≤ ·)).filterMap
        (restoreChange snapshot working) := by
    rw [← sortOperations_restore hfiles]
    simp only [buildPlan, buildUnsignedPlan, hload, hscan, except_bind_ok, except_bind_eq_ok,
      except_pure_eq_ok] at hbuild
    rcases hbuild with ⟨unsigned, ⟨changes, -, rfl⟩, authorization, -, rfl⟩
    rfl
  have hpaths : ∀ kinds, plan.pathsOf kinds =
      (((snapshot.pathSet ∪ mapKeys working).sort (· ≤ ·)).filter fun path =>
        (restoreChange snapshot working path).any fun operation =>
          kinds.contains operation.operationType).map TrackedUnityFilePath.text := by
    intro kinds
    have hchange : ∀ path operation, restoreChange snapshot working path = some operation →
        operation.path = path := fun path operation h => (fileOperation_fields h).1
    rw [OperationPlan.pathsOf, hoperations, ← map_path_filter_filterMap hchange, List.map_map]
    rfl
  have hcompare := @compareMaps_complete _ _ (snapshotDiffMap snapshot) (workingDiffMap working)
  rw [diffKeys_eq] at hcompare
  rcases hcompare with ⟨hadded, hmodified, hdeleted, hunknown⟩
  intro diff
  have hsame : diff.added = plan.pathsOf [.delete] ∧ diff.deleted = plan.pathsOf [.restore] ∧
      diff.modified = plan.pathsOf [.replace, .setMetadata] := by
    rw [hpaths, hpaths, hpaths]
    refine ⟨hadded.trans ?_, hdeleted.trans ?_, hmodified.trans ?_⟩
    · congr 2
      funext path
      rw [(restoreChange_class path).1]
      simp [beq_eq_decide]
    · congr 2
      funext path
      rw [(restoreChange_class path).2.1]
      simp [beq_eq_decide]
    · congr 2
      funext path
      rw [(restoreChange_class path).2.2]
      simp [beq_eq_decide]
  have hperm := plan.pathsOf_perm
  rw [← hsame.1, ← hsame.2.1, ← hsame.2.2] at hperm
  have hnodup : (plan.operations.map fun operation => operation.path.text).Nodup := by
    rw [hoperations, List.Nodup, List.pairwise_map, List.pairwise_filterMap]
    apply (Finset.sort_nodup _ (· ≤ ·)).imp
    intro left right hne first hfirst second hsecond htext
    rw [(fileOperation_fields hfirst).1, (fileOperation_fields hsecond).1] at htext
    exact hne (TrackedUnityFilePath.text_injective htext)
  refine ⟨hsame.1, hsame.2.1, hsame.2.2, hunknown, hperm.nodup_iff.mpr hnodup, ?_⟩
  constructor
  · intro hnil
    rw [hnil] at hperm
    exact List.map_eq_nil_iff.mp hperm.symm.eq_nil
  · intro hnil
    rw [hnil] at hperm
    exact hperm.eq_nil

/-! A checkpoint of three files: the content of the first was changed since, the time of the
second, the third was deleted, and a fourth file was added. -/

namespace Sample

def pathC : TrackedUnityFilePath := ⟨"Assets/c", by decide +kernel⟩
def pathD : TrackedUnityFilePath := ⟨"Assets/d", by decide +kernel⟩

def changedSnapshot : SnapshotFile := snapshot [file pathA, file pathB, file pathC]

def changedWorking : List (TrackedUnityFilePath × CurrentFileState) :=
  [(pathA, ⟨hash [1], 1, epoch⟩), (pathB, ⟨(file pathB).contentHash, 3, "later"⟩),
    (pathD, ⟨hash [], 0, epoch⟩)]

def changedFiles : FileTree ProjectFile :=
  .ofList [([], .directory), (["Assets"], .directory), (["Assets", "a"], .file ⟨[1], ⟨0, 0⟩⟩),
    (["Assets", "b"], .file ⟨[1, 2, 4], ⟨1, 0⟩⟩), (["Assets", "d"], .file ⟨[], ⟨0, 0⟩⟩)]

def changedTree : WorkingTree :=
  .exact "project" changedFiles (by decide) (by decide) (by decide)

theorem sort_toFinset {paths : List TrackedUnityFilePath} (h : paths.Pairwise (· < ·)) :
    paths.toFinset.sort (· ≤ ·) = paths :=
  (List.toFinset_sort _ (h.imp ne_of_lt)).mpr (h.imp le_of_lt)

theorem exists_changedPlan : ∃ plan, buildPlan (fun _ => epoch) hash changedTree
    (fun _ => .ok changedSnapshot) (fun _ => .ok (changedWorking, [])) (fun _ => .ok "key")
    validationId .restore none = .ok plan := by
  have hsort : (changedWorking.map Prod.fst).toFinset.sort (· ≤ ·) = changedWorking.map Prod.fst :=
    sort_toFinset (by decide +kernel)
  have htopology : planDirectoryTopologyChanges changedTree
      (restoreOperations changedSnapshot changedWorking) = .ok ([], []) := by
    rw [restoreOperations, hsort]
    decide +kernel
  simp only [buildPlan, buildUnsignedPlan, htopology, except_bind_ok, except_bind_eq_ok,
    except_pure_eq_ok, exists_eq_left']
  exact ⟨_, _, rfl, rfl⟩

theorem changedSnapshot_valid :
    validateSnapshotFile chrono tables validationId changedSnapshot = .ok () :=
  validate_snapshot [pathA, pathB, pathC]
    [(utf8 "assets/c", pathC), (utf8 "assets/b", pathB), (utf8 "assets/a", pathA)]
    (by decide +kernel) (by decide +kernel) (by decide +kernel)

theorem changedDiff_classes :
    let diff := diffCheckpoint changedSnapshot changedWorking [] false
    diff.added = ["Assets/d"] ∧ diff.deleted = ["Assets/c"] ∧
      diff.modified = ["Assets/a", "Assets/b"] := by
  have hkeys : mapKeys (snapshotDiffMap changedSnapshot) ∪
      mapKeys (workingDiffMap changedWorking) = [pathA, pathB, pathC, pathD].toFinset := by
    decide +kernel
  have hsort : [pathA, pathB, pathC, pathD].toFinset.sort (· ≤ ·) = [pathA, pathB, pathC, pathD] :=
    sort_toFinset (by decide +kernel)
  have hdiff : diffCheckpoint changedSnapshot changedWorking [] false =
      { compareMaps (snapshotDiffMap changedSnapshot) (workingDiffMap changedWorking) false with
        warnings := [] } := rfl
  rw [hdiff, compareMaps, hkeys, hsort]
  decide +kernel

theorem diff_agrees_with_restorePlan_changed : ∃ plan : OperationPlan,
    let diff := diffCheckpoint changedSnapshot changedWorking [] false
    plan.pathsOf [.delete] = ["Assets/d"] ∧
      plan.pathsOf [.restore] = ["Assets/c"] ∧
      plan.pathsOf [.replace, .setMetadata] = ["Assets/a", "Assets/b"] ∧
      diff.unknown = [] ∧
      (diff.added ++ diff.modified ++ diff.deleted).Nodup ∧
      (diff.added ++ diff.modified ++ diff.deleted = [] ↔ plan.operations = []) := by
  rcases exists_changedPlan with ⟨plan, hplan⟩
  rcases changedDiff_classes with ⟨hadded, hdeleted, hmodified⟩
  rcases diff_agrees_with_restorePlan changedSnapshot_valid rfl rfl hplan with
    ⟨hdelete, hrestore, hchange, hrest⟩
  exact ⟨plan, hdelete.symm.trans hadded, hrestore.symm.trans hdeleted,
    hchange.symm.trans hmodified, hrest⟩

end Sample

end CheckPo
