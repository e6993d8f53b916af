/-
When the preview of a discard can be applied to a project that has not changed since.
-/
import CheckPo.DiscardShape

namespace CheckPo

namespace DiscardBuilt

variable {canonicalUtc : Timestamp → String} {blake3 : Bytes → Digest32} {tree : WorkingTree}
  {authorizationOf : OperationPlan → CheckPoResult String}
  {snapshot : SnapshotFile} {requested : List TrackedUnityFilePath} {plan : OperationPlan}

variable (built : DiscardBuilt canonicalUtc blake3 tree authorizationOf snapshot requested plan)

section Recheck

include built in
/-- A path without a file is changed by restoring one. -/
theorem restored_of_stateNow {path : TrackedUnityFilePath} {operation : FileOperation}
    (hpath : path ∈ built.expanded)
    (hchange : changeNow canonicalUtc blake3 tree snapshot path = some operation)
    (hstate : stateNow canonicalUtc blake3 tree path = none) :
    operation.beforeHash = none ∧ path ∈ afterFiles built.operations := by
  rcases fileOperation_fields hchange with ⟨hname, hbefore, -, -, hafter, -, -⟩
  rw [hstate] at hbefore
  refine ⟨hbefore, List.mem_map.mpr ⟨operation, List.mem_filter.mpr
    ⟨mem_operationsNow.mpr ⟨path, hpath, hchange⟩, ?_⟩, hname⟩⟩
  rw [hafter, Option.isSome_map]
  rcases fileOperation_type hchange with ⟨-, -, hfile⟩ | ⟨-, found, -, hfound, -⟩ |
    ⟨-, hfound, -⟩ | ⟨-, found, -, hfound, -⟩
  · exact hfile
  · rw [hstate] at hfound
    cases hfound
  · rw [hstate] at hfound
    cases hfound
  · rw [hstate] at hfound
    cases hfound

variable (hexact : tree.ExactNames)
include built hexact

/-- The recheck finds the state that the preview found. -/
theorem recheckedState_eq {path : TrackedUnityFilePath} {operation : FileOperation}
    (hpath : path ∈ built.expanded)
    (hchange : changeNow canonicalUtc blake3 tree snapshot path = some operation) :
    recheckedState canonicalUtc blake3 tree plan operation =
      .ok (stateNow canonicalUtc blake3 tree path) := by
  rcases built.reachable path hpath with ⟨kind, hkind⟩
  have hstands := WorkingTree.stands_of_currentPathKind hkind
  rw [recheckedState, (fileOperation_fields hchange).1, built.plan_directoriesToRemove,
    built.plan_operations]
  cases kind with
  | missing =>
      rw [stateNow_of_stands hexact hstands (by simp)]
      rcases hstands with ⟨base, name, rest, hsegments, hbase, hname⟩
      rw [hsegments, WorkingTree.symlinkMetadata, WorkingTree.resolveFrom_missing hbase hname]
  | file =>
      rcases hstands with ⟨file, hfile⟩
      rw [WorkingTree.symlinkMetadata_entry hfile, stateNow_of_lookup_file hexact hfile]
      simp only [WorkingTree.currentFileStateFromAnchor, WorkingTree.openFile_entry hfile,
        except_bind_ok]
      rfl
  | directory =>
      have hnone : stateNow canonicalUtc blake3 tree path = none :=
        stateNow_of_stands hexact hstands (by simp)
      rcases built.restored_of_stateNow hpath hchange hnone with ⟨hbefore, hafter⟩
      have hdirectory := WorkingTree.symlinkMetadata_entry hstands
      rw [hdirectory, hnone]
      exact if_pos ⟨hbefore, mem_removed_of_plan built.topology hafter hdirectory⟩
  | blockedByFile blocker =>
      have hnone : stateNow canonicalUtc blake3 tree path = none :=
        stateNow_of_stands hexact hstands (by simp)
      rcases built.restored_of_stateNow hpath hchange hnone with ⟨-, hafter⟩
      have hblocker := (blocker_of_plan built.topology hafter hstands).1
      rw [hnone]
      rcases hstands with ⟨rest, hrest, hsegments, file, hfile⟩
      have hancestor : hasTrackedAncestor path (beforeFiles built.operations) = true :=
        decide_eq_true ⟨blocker, hblocker,
          TrackedUnityFilePath.isStrictDescendant_iff.mpr ⟨rest, hrest, hsegments⟩⟩
      have hbelow : tree.symlinkMetadata path.segments = .error .notADirectory := by
        rw [hsegments]
        exact WorkingTree.resolveFrom_belowFile hrest hfile
      rw [hbelow]
      exact if_pos ⟨rfl, hancestor⟩

theorem recheckOperation_iff {path : TrackedUnityFilePath} {operation : FileOperation}
    (hpath : path ∈ built.expanded)
    (hchange : changeNow canonicalUtc blake3 tree snapshot path = some operation) :
    recheckOperation canonicalUtc blake3 tree plan operation = .ok () ↔
      ensureDiscardFolderMetaOperationIsSafe tree path = .ok () := by
  rcases fileOperation_fields hchange with ⟨hname, hhash, hsize, hmodified, -⟩
  rw [recheckOperation, built.recheckedState_eq hexact hpath hchange, built.plan_kind, hname,
    hhash, hsize, hmodified]
  simp

theorem recheckPreconditions_iff :
    recheckPreconditions canonicalUtc blake3 tree plan = .ok () ↔
      ∀ path ∈ built.expanded, changeNow canonicalUtc blake3 tree snapshot path ≠ none →
        ensureDiscardFolderMetaOperationIsSafe tree path = .ok () := by
  have hremove : built.remove.forM (recheckRemovedDirectory tree) = .ok () := by
    rw [forM_eq_ok_iff]
    intro directory hdirectory
    rcases removed_of_plan built.topology hdirectory with ⟨-, -, hmetadata, -⟩
    rw [recheckRemovedDirectory, hmetadata]
  have hcreate : built.create.forM (recheckCreatedDirectory tree (beforeFiles built.operations)) =
      .ok () := by
    rw [forM_eq_ok_iff]
    intro directory hdirectory
    rcases created_of_plan built.topology (fun path => built.stands_of_mem_afterFiles) hdirectory
      with ⟨-, -, -, hvacated⟩
    exact recheckCreatedDirectory_of_vacated hvacated
  rw [recheckPreconditions, built.plan_operations, built.plan_directoriesToRemove,
    built.plan_directoriesToCreate, hremove, hcreate]
  simp only [except_bind_eq_ok, forM_eq_ok_iff, except_bind_ok]
  constructor
  · rintro ⟨-, hall, -⟩ path hpath hchange
    rcases Option.ne_none_iff_exists'.mp hchange with ⟨operation, hoperation⟩
    exact (built.recheckOperation_iff hexact hpath hoperation).mp
      (hall operation (mem_operationsNow.mpr ⟨path, hpath, hoperation⟩))
  · intro hall
    refine ⟨⟨⟩, ?_, trivial⟩
    intro operation hoperation
    rcases mem_operationsNow.mp hoperation with ⟨path, hpath, hchange⟩
    exact (built.recheckOperation_iff hexact hpath hchange).mpr
      (hall path hpath (by rw [hchange]; exact Option.some_ne_none _))

end Recheck

end DiscardBuilt

/-! The conditions, in terms of the checkpoint, the tree and the requested paths. -/

structure DiscardApplies (canonicalUtc : Timestamp → String) (blake3 : Bytes → Digest32)
    (tree : WorkingTree) (snapshot : SnapshotFile) (requested : List TrackedUnityFilePath) :
    Prop where
  /-- What stands in the way of a covered file of the checkpoint is covered too. -/
  scope : ∀ path part, Covered tree snapshot.pathSet requested path → path ∈ snapshot.pathSet →
    requiredDiscardTopologyPaths tree path = .ok part →
    ∀ required ∈ part, Covered tree snapshot.pathSet requested required
  bytes : ∀ expanded : Finset TrackedUnityFilePath,
    (∀ path, path ∈ expanded ↔ Expanded tree snapshot.pathSet requested path) →
    (OperationPlan.stagedSizes (operationsNow canonicalUtc blake3 tree snapshot expanded)).sum +
      (OperationPlan.backupSizes (operationsNow canonicalUtc blake3 tree snapshot expanded)).sum <
        2 ^ 64
  sizes : ∀ path, Expanded tree snapshot.pathSet requested path →
    SizeAgrees canonicalUtc blake3 tree snapshot path
  /-- No changed path is the `.meta` file of what is now a folder. -/
  metas : ∀ path, Expanded tree snapshot.pathSet requested path →
    changeNow canonicalUtc blake3 tree snapshot path ≠ none →
    ensureDiscardFolderMetaOperationIsSafe tree path = .ok ()

theorem expanded_covered_iff {tree : WorkingTree} {snapshotPaths : Finset TrackedUnityFilePath}
    {requested : List TrackedUnityFilePath} :
    (∀ path, Expanded tree snapshotPaths requested path →
        Covered tree snapshotPaths requested path) ↔
      ∀ path part, Covered tree snapshotPaths requested path → path ∈ snapshotPaths →
        requiredDiscardTopologyPaths tree path = .ok part →
        ∀ required ∈ part, Covered tree snapshotPaths requested required := by
  constructor
  · intro hall path part hcovered hsnapshot hpart required hrequired
    exact hall required (hcovered.expanded.topology hsnapshot hpart hrequired)
  · intro hscope path hpath
    induction hpath with
    | requested hrequested =>
        exact .root (.requested hrequested) hrequested
          (by simp [TrackedUnityFilePath.isSameOrDescendant])
    | companion hexpanded hpart hin ih =>
        refine .companion ih ?_ (.companion hexpanded hpart hin)
        exact companion_of_mem hpart hin
    | topology hexpanded hsnapshot hpart hin ih => exact hscope _ _ ih hsnapshot hpart _ hin

/-- The preview of a discard can be applied to the unchanged project exactly under these
conditions. -/
theorem discardPreview_applies_iff {canonicalUtc : Timestamp → String}
    {blake3 : Bytes → Digest32} {tree : WorkingTree}
    {load : SnapshotId → CheckPoResult SnapshotFile} {scan : ProjectScan}
    {authorizationOf : OperationPlan → CheckPoResult String} {checkpointId : SnapshotId}
    {snapshot : SnapshotFile} {requested : List TrackedUnityFilePath} {plan : OperationPlan}
    (hexact : tree.ExactNames) (hrequested : requested ≠ [])
    (hload : load checkpointId = .ok snapshot)
    (hbuild : buildPlan canonicalUtc blake3 tree load scan authorizationOf checkpointId .discard
      (some requested) = .ok plan) :
    validateDiscardRequestScope tree authorizationOf requested plan = .ok () ∧
        validateExpectedPlan canonicalUtc blake3 tree load authorizationOf plan = .ok () ↔
      DiscardApplies canonicalUtc blake3 tree snapshot requested := by
  rcases discardBuilt_of_buildPlan hexact hload hbuild with ⟨built, rfl⟩
  have hauthorization : validateOperationPlanAuthorization authorizationOf plan = .ok () := by
    rw [validateOperationPlanAuthorization, built.authorized, except_bind_ok,
      if_pos (authorizationMatches_self _)]
    rfl
  have hexpanded : ∀ path, path ∈ built.expanded ↔ Expanded tree snapshot.pathSet requested path :=
    fun path => built.mem_expanded hexact
  have hexpected : validateExpectedPlan canonicalUtc blake3 tree load authorizationOf plan = .ok () ↔
      validatePlanShape load plan = .ok () ∧
        recheckPreconditions canonicalUtc blake3 tree plan = .ok () := by
    simp only [validateExpectedPlan, hauthorization, except_bind_ok, except_bind_eq_ok]
    exact ⟨fun ⟨_, hshape, hrecheck⟩ => ⟨hshape, hrecheck⟩,
      fun ⟨hshape, hrecheck⟩ => ⟨⟨⟩, hshape, hrecheck⟩⟩
  rw [hexpected, built.validateDiscardRequestScope_iff hexact hrequested, expanded_covered_iff,
    built.validatePlanShape_iff hexact hrequested hload, built.recheckPreconditions_iff hexact]
  simp only [hexpanded]
  constructor
  · rintro ⟨hscope, ⟨hbytes, hsizes⟩, hmetas⟩
    refine ⟨hscope, ?_, hsizes, hmetas⟩
    intro expanded hmem
    have hsame : expanded = built.expanded := by
      ext path
      rw [hmem, hexpanded]
    rw [hsame]
    exact hbytes
  · intro happlies
    exact ⟨happlies.scope, ⟨happlies.bytes built.expanded hexpanded, happlies.sizes⟩,
      happlies.metas⟩

/-! A folder in the place of a file, next to a `.meta` file that differs. -/

def folderFiles : FileTree ProjectFile :=
  .ofList [([], .directory), (["Assets"], .directory), (["Assets", "a"], .directory),
    (["Assets", "a.meta"], .file ⟨[1], ⟨0, 0⟩⟩)]

def folderTree : WorkingTree :=
  .exact "project" folderFiles (by decide) (by decide) (by decide)

theorem checkTrackedPath_folderAsset : checkTrackedPath "Assets/a" = .ok () := by decide

def folderAsset : TrackedUnityFilePath := ⟨"Assets/a", checkTrackedPath_folderAsset⟩

def folderMeta : TrackedUnityFilePath := ⟨"Assets/a.meta", by decide⟩

/-- A digest that tells contents of different length apart. -/
def lengthDigest (content : Bytes) : Digest32 :=
  ⟨List.replicate 32 content.length.toUInt8, List.length_replicate⟩

def folderCheckpoint : SnapshotFile :=
  { schemaVersion := 2
    projectId := ⟨List.replicate 16 0, length_zeroProject⟩
    parentSnapshotId := none
    createdAtUtc := "1970-01-01T00:00:00Z"
    name := "files"
    toolVersion := "1"
    trackedRoots := ["Assets"]
    files := [⟨folderAsset, 0, "1970-01-01T00:00:00Z", .whole (lengthDigest []) 0⟩,
      ⟨folderMeta, 2, "1970-01-01T00:00:00Z", .whole (lengthDigest [0, 0]) 2⟩] }

def folderTime (_ : Timestamp) : String := "1970-01-01T00:00:00Z"

theorem sort_folderPaths :
    ({folderAsset, folderMeta} : Finset TrackedUnityFilePath).sort (· ≤ ·) =
      [folderAsset, folderMeta] := by
  rw [Finset.sort_insert, Finset.sort_singleton]
  · intro path hpath
    rw [Finset.mem_singleton.mp hpath]
    decide +kernel
  · decide

/-- The companion comes with the requested file, and nothing else does. -/
theorem folder_settled : settle (discardRound folderTree folderCheckpoint.pathSet)
    (discardRounds folderTree folderCheckpoint.pathSet [folderAsset])
    [folderAsset].toFinset = .ok {folderAsset, folderMeta} := by
  have hrequired : gatherInto (fun path => if path ∈ folderCheckpoint.pathSet
      then requiredDiscardTopologyPaths folderTree path else .ok ∅)
      [folderAsset, folderMeta] {folderAsset, folderMeta} = .ok {folderAsset, folderMeta} := by
    decide +kernel
  have hfirst : gatherInto (companionToDiscard folderTree folderCheckpoint.pathSet)
      [folderAsset] {folderAsset} = .ok {folderAsset, folderMeta} := by
    decide +kernel
  have hsecond : gatherInto (companionToDiscard folderTree folderCheckpoint.pathSet)
      [folderAsset, folderMeta] {folderAsset, folderMeta} = .ok {folderAsset, folderMeta} := by
    rw [Finset.pair_comm folderAsset folderMeta]
    decide +kernel
  have hcards : ({folderAsset, folderMeta} : Finset TrackedUnityFilePath).card ≠
      ({folderAsset} : Finset TrackedUnityFilePath).card := by decide
  rw [show discardRounds folderTree folderCheckpoint.pathSet [folderAsset] = 6 + 1 + 1 from rfl,
    show [folderAsset].toFinset = {folderAsset} from rfl, settle, discardRound,
    Finset.sort_singleton, hfirst, except_bind_ok, sort_folderPaths, hrequired, except_bind_ok,
    if_neg hcards, settle, discardRound, sort_folderPaths, hsecond, except_bind_ok,
    sort_folderPaths, hrequired, except_bind_ok, if_pos rfl]
  rfl

theorem folder_operations : ∃ operations, discardOperations folderTime lengthDigest folderTree
    folderCheckpoint {folderAsset, folderMeta} = .ok operations ∧
      ∃ changes, planDirectoryTopologyChanges folderTree operations = .ok changes := by
  rw [discardOperations, sort_folderPaths]
  refine ⟨[folderAsset, folderMeta].filterMap
    (changeNow folderTime lengthDigest folderTree folderCheckpoint), ?_, ([folderAsset], []), ?_⟩
  · decide +kernel
  · decide +kernel

theorem exists_folderPlan : ∃ plan, buildPlan folderTime lengthDigest folderTree
    (fun _ => .ok folderCheckpoint) (fun _ => .ok ([], [])) (fun _ => .ok "key") (lengthDigest [])
    .discard (some [folderAsset]) = .ok plan := by
  rcases folder_operations with ⟨operations, hoperations, changes, hchanges⟩
  have hrejected : rejectSelectedDirectoryMeta folderTree [folderAsset] = .ok () := by
    decide +kernel
  simp only [buildPlan, buildUnsignedPlan, normalizeDiscardSelectionWithSnapshot, hrejected,
    folder_settled, except_bind_ok, orError, except_bind_eq_ok, except_pure_eq_ok,
    exists_eq_left', Finset.sort_toFinset, hoperations, hchanges, operationPlanAuthorization,
    Except.ok.injEq]
  exact ⟨_, rfl⟩

theorem discardPreview_applies_iff_folder : ∃ plan,
    buildPlan folderTime lengthDigest folderTree (fun _ => .ok folderCheckpoint)
        (fun _ => .ok ([], [])) (fun _ => .ok "key") (lengthDigest []) .discard
        (some [folderAsset]) = .ok plan ∧
      (validateDiscardRequestScope folderTree (fun _ => .ok "key") [folderAsset] plan = .ok () ∧
          validateExpectedPlan folderTime lengthDigest folderTree (fun _ => .ok folderCheckpoint)
            (fun _ => .ok "key") plan = .ok () ↔
        DiscardApplies folderTime lengthDigest folderTree folderCheckpoint [folderAsset]) := by
  rcases exists_folderPlan with ⟨plan, hplan⟩
  exact ⟨plan, hplan, discardPreview_applies_iff rfl (List.cons_ne_nil _ _) rfl hplan⟩

/-- The preview is refused although the project has not changed: the companion comes along,
and it is the `.meta` file of what is a folder now. -/
theorem folderPreview_refused : ∃ plan,
    buildPlan folderTime lengthDigest folderTree (fun _ => .ok folderCheckpoint)
        (fun _ => .ok ([], [])) (fun _ => .ok "key") (lengthDigest []) .discard
        (some [folderAsset]) = .ok plan ∧
      validateExpectedPlan folderTime lengthDigest folderTree (fun _ => .ok folderCheckpoint)
        (fun _ => .ok "key") plan ≠ .ok () := by
  rcases exists_folderPlan with ⟨plan, hplan⟩
  refine ⟨plan, hplan, fun hvalid => ?_⟩
  have hexact : folderTree.ExactNames := rfl
  rcases discardBuilt_of_buildPlan hexact rfl hplan with ⟨built, -⟩
  have hrecheck : recheckPreconditions folderTime lengthDigest folderTree plan = .ok () := by
    simp only [validateExpectedPlan, except_bind_eq_ok] at hvalid
    rcases hvalid with ⟨-, -, -, -, hrecheck⟩
    exact hrecheck
  have hcompanion : companionToDiscard folderTree folderCheckpoint.pathSet folderAsset =
      .ok {folderMeta} := by
    decide +kernel
  have hexpanded : folderMeta ∈ built.expanded := by
    rw [built.mem_expanded hexact]
    exact .companion (.requested List.mem_cons_self) hcompanion (Finset.mem_singleton_self _)
  have hchange : changeNow folderTime lengthDigest folderTree folderCheckpoint folderMeta ≠ none := by
    decide +kernel
  have hsafe := (built.recheckPreconditions_iff hexact).mp hrecheck folderMeta hexpanded hchange
  have hunsafe : ensureDiscardFolderMetaOperationIsSafe folderTree folderMeta ≠ .ok () := by
    decide +kernel
  exact hunsafe hsafe

end CheckPo
