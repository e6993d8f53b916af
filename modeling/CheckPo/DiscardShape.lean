/-
The shape of a built discard plan, as it is checked before the plan is applied.
-/
import CheckPo.DiscardScope

namespace CheckPo

/-! Sums of 64 bits. -/

theorem checkedSum_eq_ok {failure : CheckPoError} {values : List Nat} {total : Nat} :
    checkedSum failure values = .ok total ↔ values.sum < 2 ^ 64 ∧ total = values.sum := by
  suffices h : ∀ start, start < 2 ^ 64 →
      (values.foldlM (fun total value => if 2 ^ 64 ≤ total + value then .error failure
        else .ok (total + value)) start = (.ok total : CheckPoResult Nat) ↔
        start + values.sum < 2 ^ 64 ∧ total = start + values.sum) by
    rw [checkedSum, h 0 (Nat.two_pow_pos 64), Nat.zero_add]
  induction values with
  | nil =>
      intro start hstart
      rw [List.foldlM_nil, except_pure_eq_ok, List.sum_nil, Nat.add_zero]
      exact ⟨fun h => ⟨hstart, h.symm⟩, fun h => h.2.symm⟩
  | cons head rest ih =>
      intro start hstart
      rw [List.foldlM_cons, List.sum_cons, ← Nat.add_assoc]
      by_cases hsum : 2 ^ 64 ≤ start + head
      · rw [if_pos hsum]
        constructor
        · exact nofun
        · rintro ⟨hlt, -⟩
          omega
      · rw [if_neg hsum]
        exact ih (start + head) (not_le.mp hsum)

theorem foldl_saturatingAdd (values : List Nat) {start : Nat} (hstart : start ≤ 2 ^ 64 - 1) :
    values.foldl saturatingAdd start = min (start + values.sum) (2 ^ 64 - 1) := by
  induction values generalizing start with
  | nil =>
      rw [List.foldl_nil, List.sum_nil, Nat.add_zero, min_eq_left hstart]
  | cons head rest ih =>
      rw [List.foldl_cons, saturatingAdd, ih (Nat.min_le_right _ _), List.sum_cons]
      omega

/-! One operation. -/

section Operation

variable {canonicalUtc : Timestamp → String} {blake3 : Bytes → Digest32} {tree : WorkingTree}
  {snapshot : SnapshotFile} {path : TrackedUnityFilePath} {operation : FileOperation}

/-- The checkpoint tells the size of a file of which only the time differs. -/
def SizeAgrees (canonicalUtc : Timestamp → String) (blake3 : Bytes → Digest32)
    (tree : WorkingTree) (snapshot : SnapshotFile) (path : TrackedUnityFilePath) : Prop :=
  ∀ file state, snapshot.fileAt path = some file →
    stateNow canonicalUtc blake3 tree path = some state → state.hash = file.contentHash →
    state.modifiedAtUtc ≠ file.modifiedAtUtc → state.sizeBytes = file.contentSizeBytes.toNat

theorem validateJournalOperation_iff
    (h : changeNow canonicalUtc blake3 tree snapshot path = some operation) :
    validateJournalOperation snapshot operation = .ok () ↔
      SizeAgrees canonicalUtc blake3 tree snapshot path := by
  rcases fileOperation_fields h with
    ⟨hpath, hhash, hsize, hmodified, hafter, hafterSize, hafterModified⟩
  rw [validateJournalOperation, hpath, hhash, hsize, hmodified, hafter, hafterSize, hafterModified]
  rcases fileOperation_type h with ⟨htype, hstate, hfile⟩ |
    ⟨htype, found, wanted, hstate, hfile, hdiffers⟩ | ⟨htype, hstate, hfile⟩ |
    ⟨htype, found, wanted, hstate, hfile, hsame, htime⟩
  · rcases Option.isSome_iff_exists.mp hfile with ⟨wanted, hwanted⟩
    simp [htype, hstate, hwanted, SizeAgrees, orError]
  · simp [htype, hstate, hfile, SizeAgrees, orError, hdiffers]
  · rcases Option.isSome_iff_exists.mp hstate with ⟨found, hfound⟩
    simp [htype, hfound, hfile, SizeAgrees]
  · simp [htype, hstate, hfile, SizeAgrees, orError, hsame, htime]

end Operation

/-! The whole plan. -/

namespace DiscardBuilt

variable {canonicalUtc : Timestamp → String} {blake3 : Bytes → Digest32} {tree : WorkingTree}
  {authorizationOf : OperationPlan → CheckPoResult String}
  {snapshot : SnapshotFile} {requested : List TrackedUnityFilePath} {plan : OperationPlan}

variable (built : DiscardBuilt canonicalUtc blake3 tree authorizationOf snapshot requested plan)
include built

/-- The payloads and the backups of the plan fit in 64 bits. -/
def BytesFit : Prop :=
  (OperationPlan.stagedSizes built.operations).sum +
    (OperationPlan.backupSizes built.operations).sum < 2 ^ 64

theorem validateJournalOperations_iff {load : SnapshotId → CheckPoResult SnapshotFile}
    (hload : load built.checkpointId = .ok snapshot) :
    validateJournalOperations load built.checkpointId built.operations = .ok () ↔
      ∀ path ∈ built.expanded, SizeAgrees canonicalUtc blake3 tree snapshot path := by
  have hchain : List.IsChain (fun left right : FileOperation => left.path ≠ right.path)
      built.operations :=
    (built.operations_pairwise.imp fun hlt => hlt.ne).isChain
  rw [validateJournalOperations, built.sortOperations_operations]
  simp only [ne_eq, not_true_eq_false, if_false, hchain, hload, except_bind_ok, forM_eq_ok_iff]
  constructor
  · intro h path hpath file state hfile hstate hhash htime
    have hchange : changeNow canonicalUtc blake3 tree snapshot path =
        fileOperation path (some file) (some state) := by
      rw [changeNow, hfile, hstate]
    rw [fileOperation, if_neg (not_not.mpr hhash), if_pos htime] at hchange
    exact (validateJournalOperation_iff hchange).mp
      (h _ (mem_operationsNow.mpr ⟨path, hpath, hchange⟩)) file state hfile hstate hhash htime
  · intro h operation hoperation
    rcases mem_operationsNow.mp hoperation with ⟨path, hpath, hchange⟩
    exact (validateJournalOperation_iff hchange).mpr (h path hpath)

theorem stands_of_mem_afterFiles {path : TrackedUnityFilePath}
    (hpath : path ∈ afterFiles built.operations) : ∃ kind, tree.Stands path.segments kind := by
  rcases List.mem_map.mp hpath with ⟨operation, hoperation, rfl⟩
  rcases mem_operationsNow.mp (List.mem_of_mem_filter hoperation) with ⟨path, hin, hchange⟩
  rcases built.reachable path hin with ⟨kind, hkind⟩
  rw [(fileOperation_fields hchange).1]
  exact ⟨kind, WorkingTree.stands_of_currentPathKind hkind⟩

theorem validateJournalDirectoryTopology_ok :
    validateJournalDirectoryTopology built.operations built.remove built.create = .ok () := by
  rcases sortDedup_changes built.topology with ⟨hremove, hcreate⟩
  rw [validateJournalDirectoryTopology, hremove, hcreate]
  simp only [ne_eq, not_true_eq_false, or_self, if_false, except_bind_eq_ok, forM_eq_ok_iff]
  refine ⟨⟨⟩, ?_, ?_⟩
  · intro directory hdirectory
    rcases removed_of_plan built.topology hdirectory with ⟨path, hpath, -, hbelow⟩
    exact if_pos (List.any_eq_true.mpr ⟨path, hpath, hbelow⟩)
  · intro directory hdirectory
    rcases created_of_plan built.topology (fun path => built.stands_of_mem_afterFiles) hdirectory
      with ⟨path, hpath, hbelow, -⟩
    exact if_pos (List.any_eq_true.mpr ⟨path, hpath, hbelow⟩)

theorem validatePlanSelection_ok (hexact : tree.ExactNames) (hrequested : requested ≠ []) :
    validatePlanSelection plan = .ok () := by
  have hsorted : built.expanded.sort (· ≤ ·) ≠ [] := by
    rcases List.exists_mem_of_ne_nil requested hrequested with ⟨path, hpath⟩
    have hexpanded := built.requested_subset hexact (List.mem_toFinset.mpr hpath)
    exact List.ne_nil_of_mem ((Finset.mem_sort (· ≤ ·)).mpr hexpanded)
  have hscope : ∀ operation ∈ built.operations, operation.path ∈ built.expanded := by
    intro operation hoperation
    rcases mem_operationsNow.mp hoperation with ⟨path, hpath, hchange⟩
    rwa [(fileOperation_fields hchange).1]
  rw [validatePlanSelection, built.plan_kind, built.plan_selectedPaths, built.plan_operations]
  simpa [isNormalized, hsorted] using hscope

/-- The estimates are the sums where these fit in 64 bits. -/
theorem plan_bytes (hfit : built.BytesFit) :
    plan.stagedBytes = (OperationPlan.stagedSizes built.operations).sum ∧
      plan.backupBytes = (OperationPlan.backupSizes built.operations).sum ∧
      plan.estimatedTemporaryBytes = (OperationPlan.stagedSizes built.operations).sum +
        (OperationPlan.backupSizes built.operations).sum := by
  rw [BytesFit] at hfit
  have hsum : ∀ values : List Nat, values.sum < 2 ^ 64 →
      values.foldl saturatingAdd 0 = values.sum := by
    intro values hvalues
    rw [foldl_saturatingAdd values (Nat.zero_le _), Nat.zero_add]
    omega
  have hstaged := congrArg OperationPlan.stagedBytes built.planned
  have hbackup := congrArg OperationPlan.backupBytes built.planned
  have hestimated := congrArg OperationPlan.estimatedTemporaryBytes built.planned
  simp only [OperationPlan.new, OperationPlan.withDirectoryChanges, OperationPlan.withWarnings,
    built.sortOperations_operations] at hstaged hbackup hestimated
  rw [hsum _ (by omega)] at hstaged hbackup
  rw [hsum _ (by omega), hsum _ (by omega), saturatingAdd] at hestimated
  exact ⟨hstaged, hbackup, hestimated.trans (by omega)⟩

theorem validatePlanShape_iff (hexact : tree.ExactNames) (hrequested : requested ≠ [])
    {load : SnapshotId → CheckPoResult SnapshotFile}
    (hload : load built.checkpointId = .ok snapshot) :
    validatePlanShape load plan = .ok () ↔
      built.BytesFit ∧ ∀ path ∈ built.expanded, SizeAgrees canonicalUtc blake3 tree snapshot path := by
  have hversion : plan.schemaVersion = operationPlanSchemaVersion :=
    congrArg OperationPlan.schemaVersion built.planned
  have hwarnings : plan.warnings = [] := congrArg OperationPlan.warnings built.planned
  have hcheckpoint : plan.checkpointId = built.checkpointId :=
    congrArg OperationPlan.checkpointId built.planned
  have hcounts : plan.restoreCount = OperationPlan.countOf built.operations .restore ∧
      plan.replaceCount = OperationPlan.countOf built.operations .replace ∧
      plan.deleteCount = OperationPlan.countOf built.operations .delete ∧
      plan.metadataCount = OperationPlan.countOf built.operations .setMetadata := by
    rw [← built.sortOperations_operations]
    exact ⟨congrArg OperationPlan.restoreCount built.planned,
      congrArg OperationPlan.replaceCount built.planned,
      congrArg OperationPlan.deleteCount built.planned,
      congrArg OperationPlan.metadataCount built.planned⟩
  have hchanges : plan.hasChanges = (!built.operations.isEmpty || !built.remove.isEmpty ||
      !built.create.isEmpty) := by
    have hplanned := congrArg OperationPlan.hasChanges built.planned
    simpa only [OperationPlan.new, OperationPlan.withDirectoryChanges, OperationPlan.withWarnings,
      built.sortOperations_operations, sortDedup_changes built.topology] using hplanned
  rcases sortDedup_changes built.topology with ⟨hremove, hcreate⟩
  rw [validatePlanShape, hversion, hwarnings, hcheckpoint, built.plan_operations,
    built.plan_directoriesToRemove, built.plan_directoriesToCreate, hcounts.1, hcounts.2.1,
    hcounts.2.2.1, hcounts.2.2.2, hchanges, hremove, hcreate,
    built.validatePlanSelection_ok hexact hrequested]
  simp only [ne_eq, not_true_eq_false, if_false, or_self, except_bind_ok, except_bind_eq_ok,
    checkedSum_eq_ok, except_guard_eq_ok, built.validateJournalOperations_iff hload,
    built.validateJournalDirectoryTopology_ok]
  constructor
  · rintro ⟨staged, ⟨-, rfl⟩, backup, ⟨-, rfl⟩, hfit, -, ⟨⟩, hsizes, -⟩
    exact ⟨not_le.mp hfit, hsizes⟩
  · rintro ⟨hfit, hsizes⟩
    rcases built.plan_bytes hfit with ⟨hstaged, hbackup, hestimated⟩
    rw [BytesFit] at hfit
    refine ⟨_, ⟨by omega, rfl⟩, _, ⟨by omega, rfl⟩, not_le.mpr hfit, ?_, ⟨⟩, hsizes, trivial⟩
    simp [hstaged, hbackup, hestimated]

end DiscardBuilt

end CheckPo
