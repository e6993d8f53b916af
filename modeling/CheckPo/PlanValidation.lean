/-
The checks of an operation plan at apply time: the scope of a discard request, the shape
of the plan, and the preconditions in the working tree.
-/
import CheckPo.PlanBuilding

namespace CheckPo

/-! The scope of a discard request. -/

/-- Companions of authorized paths, as far as they are selected. -/
def authorizedCompanions (selected authorized : Finset TrackedUnityFilePath) :
    Finset TrackedUnityFilePath :=
  insertWhere (fun _ companion => decide (companion ∈ selected))
    ((authorized.sort (· ≤ ·)).filterMap unityAssetCompanionPath) authorized

/-- A file that is deleted to make room for an authorized one. -/
def blocksAuthorizedTarget (plan : OperationPlan) (authorized : Finset TrackedUnityFilePath)
    (candidate : TrackedUnityFilePath) : Bool :=
  plan.operations.any (fun operation =>
      operation.path == candidate && operation.operationType == .delete) &&
    plan.directoriesToCreate.contains candidate &&
    plan.operations.any fun operation => decide (operation.path ∈ authorized) &&
      operation.isStaged && operation.path.isStrictDescendant candidate

/-- One round of the authorization, which reads what it has just added. -/
def authorizationRound (plan : OperationPlan) (selected authorized : Finset TrackedUnityFilePath) :
    Finset TrackedUnityFilePath :=
  let authorized := authorizedCompanions selected authorized
  insertWhere (blocksAuthorizedTarget plan) ((selected \ authorized).sort (· ≤ ·)) authorized

section Scope

variable (tree : WorkingTree) (authorizationOf : OperationPlan → CheckPoResult String)

/-- Texts are compared without stopping at the first difference. -/
def authorizationMatches (actual expected : String) : Bool :=
  let actual := utf8 actual
  let expected := utf8 expected
  if actual.length ≠ expected.length then false
  else (actual.zip expected).foldl
    (fun difference pair => difference ||| (pair.1 ^^^ pair.2)) 0 == 0

theorem authorizationMatches_self (text : String) : authorizationMatches text text = true := by
  have hnone : ∀ values : Bytes, (values.zip values).foldl
      (fun difference pair => difference ||| (pair.1 ^^^ pair.2)) (0 : UInt8) = 0 := by
    intro values
    induction values with
    | nil => rfl
    | cons head rest ih => simpa using ih
  rw [authorizationMatches]
  simp [hnone]

def validateOperationPlanAuthorization (plan : OperationPlan) : CheckPoResult Unit := do
  let expected ← operationPlanAuthorization authorizationOf plan
  if authorizationMatches plan.authorization expected = true then return ()
  else .error (.corruption
    "operation plan authorization is invalid; preview the operation again")

/-- Sorted, without repetitions. -/
def isNormalized (paths : List TrackedUnityFilePath) : Bool :=
  paths.toFinset.card == paths.length && paths == paths.toFinset.sort (· ≤ ·)

def validateDiscardRequestScope (requested : List TrackedUnityFilePath) (plan : OperationPlan) :
    CheckPoResult Unit := do
  if plan.kind ≠ .discard then
    .error (.corruption "discard request requires a discard operation plan")
  else
    rejectSelectedDirectoryMeta tree requested
    if requested.toFinset = ∅ then
      .error (.invalidTrackedPath "discard requires selected tracked paths")
    else
      let selected ← orError plan.selectedPaths
        (.corruption "discard plan requires selected paths")
      if isNormalized selected = false then
        .error (.corruption "discard plan selected paths are not normalized")
      else if ¬ requested.toFinset ⊆ selected.toFinset then
        .error (.workingTreeChanged "discard path set changed after preview")
      else
        let roots := requested.toFinset ∪ selected.toFinset.filter fun candidate =>
          ∃ root ∈ requested.toFinset, candidate.isSameOrDescendant root = true
        let authorized ← settle
          (fun authorized => .ok (authorizationRound plan selected.toFinset authorized))
          (selected.length + 1) roots
        if authorized ≠ selected.toFinset then
          .error (.workingTreeChanged "discard path set changed after preview")
        else validateOperationPlanAuthorization authorizationOf plan

end Scope

/-! The shape of a plan. -/

/-- A sum that fails beyond 64 bits. -/
def checkedSum (failure : CheckPoError) (values : List Nat) : CheckPoResult Nat :=
  values.foldlM (fun total value =>
    if 2 ^ 64 ≤ total + value then .error failure else .ok (total + value)) 0

section Shape

variable (load : SnapshotId → CheckPoResult SnapshotFile)

/-- The fields that an operation has to have, next to the file of the checkpoint. -/
def validateJournalOperation (snapshot : SnapshotFile) (operation : FileOperation) :
    CheckPoResult Unit :=
  let matchesAfter (file : SnapshotEntry) : Bool :=
    operation.afterHash == some file.contentHash &&
      operation.afterSizeBytes == some file.contentSizeBytes.toNat &&
      operation.afterModifiedAtUtc == some file.modifiedAtUtc
  let hasBefore : Bool := operation.beforeHash.isSome && operation.beforeSizeBytes.isSome &&
    operation.beforeModifiedAtUtc.isSome
  match operation.operationType with
  | .restore => do
      let file ← orError (snapshot.fileAt operation.path)
        (.corruption s!"restore operation missing snapshot entry for {operation.path.text}")
      if operation.beforeHash.isSome || operation.beforeSizeBytes.isSome ||
          operation.beforeModifiedAtUtc.isSome || !matchesAfter file then
        .error (.corruption s!"invalid restore operation for {operation.path.text}")
      else .ok ()
  | .replace => do
      let file ← orError (snapshot.fileAt operation.path)
        (.corruption s!"replace operation missing snapshot entry for {operation.path.text}")
      if !hasBefore || !matchesAfter file then
        .error (.corruption s!"invalid replace operation for {operation.path.text}")
      else .ok ()
  | .delete =>
      if !hasBefore || operation.afterHash.isSome || operation.afterSizeBytes.isSome ||
          operation.afterModifiedAtUtc.isSome || (snapshot.fileAt operation.path).isSome then
        .error (.corruption s!"invalid delete operation for {operation.path.text}")
      else .ok ()
  | .setMetadata => do
      let file ← orError (snapshot.fileAt operation.path)
        (.corruption s!"metadata operation missing snapshot entry for {operation.path.text}")
      if !hasBefore || operation.beforeHash != some file.contentHash ||
          operation.beforeSizeBytes != some file.contentSizeBytes.toNat || !matchesAfter file ||
          operation.beforeModifiedAtUtc == operation.afterModifiedAtUtc then
        .error (.corruption s!"invalid metadata operation for {operation.path.text}")
      else .ok ()

def validateJournalOperations (checkpointId : SnapshotId) (operations : List FileOperation) :
    CheckPoResult Unit := do
  if sortOperations operations ≠ operations then
    .error (.corruption "transaction operations are not sorted")
  else if ¬ List.IsChain (fun left right : FileOperation => left.path ≠ right.path) operations then
    .error (.corruption "transaction operations contain duplicate paths")
  else
    let snapshot ← load checkpointId
    operations.forM (validateJournalOperation snapshot)

def validateJournalDirectoryTopology (operations : List FileOperation)
    (directoriesToRemove directoriesToCreate : List TrackedUnityFilePath) :
    CheckPoResult Unit := do
  let afterFiles := afterFiles operations
  if sortDedup removalOrder directoriesToRemove ≠ directoriesToRemove ∨
      sortDedup (fun left right => decide (left ≤ right)) directoriesToCreate ≠
        directoriesToCreate then
    .error (.corruption "transaction directory topology is not normalized")
  else
    directoriesToRemove.forM fun directory =>
      if afterFiles.any (fun file => directory.isSameOrDescendant file) = true then .ok ()
      else .error (.corruption s!"transaction removes an unrelated directory: {directory.text}")
    directoriesToCreate.forM fun directory =>
      if afterFiles.any (fun file => file.isStrictDescendant directory) = true then .ok ()
      else .error (.corruption s!"transaction creates an unrelated directory: {directory.text}")

/-- The check of the selected paths by the kind of the plan. -/
def validatePlanSelection (plan : OperationPlan) : CheckPoResult Unit :=
  match plan.kind, plan.selectedPaths with
  | .restore, some _ => .error (.corruption "restore plan must not include selected paths")
  | .restore, none => .ok ()
  | .discard, none => .error (.corruption "discard plan requires selected paths")
  | .discard, some selected =>
      if selected = [] ∨ isNormalized selected = false then
        .error (.corruption "discard plan selected paths are not normalized")
      else if plan.operations.any (fun operation => !selected.contains operation.path) = true then
        .error (.corruption "discard plan operations exceed the selected scope")
      else .ok ()

def validatePlanShape (plan : OperationPlan) : CheckPoResult Unit := do
  if plan.schemaVersion ≠ operationPlanSchemaVersion then
    .error (.corruption
      s!"unsupported operation plan schema version: found {plan.schemaVersion}, supported {operationPlanSchemaVersion}")
  else if plan.warnings ≠ [] then
    .error (.corruption "operation plan contains scan warnings and cannot be applied")
  else if plan.restoreCount ≠ OperationPlan.countOf plan.operations .restore ∨
      plan.replaceCount ≠ OperationPlan.countOf plan.operations .replace ∨
      plan.deleteCount ≠ OperationPlan.countOf plan.operations .delete ∨
      plan.metadataCount ≠ OperationPlan.countOf plan.operations .setMetadata ∨
      plan.hasChanges ≠ (!plan.operations.isEmpty || !plan.directoriesToRemove.isEmpty ||
        !plan.directoriesToCreate.isEmpty) then
    .error (.corruption "operation plan counts are inconsistent")
  else
    let stagedBytes ← checkedSum (.corruption "operation staged byte total overflow")
      (OperationPlan.stagedSizes plan.operations)
    let backupBytes ← checkedSum (.corruption "operation backup byte total overflow")
      (OperationPlan.backupSizes plan.operations)
    if 2 ^ 64 ≤ stagedBytes + backupBytes then
      .error (.corruption "operation temporary byte total overflow")
    else if plan.stagedBytes ≠ stagedBytes ∨ plan.backupBytes ≠ backupBytes ∨
        plan.estimatedTemporaryBytes ≠ stagedBytes + backupBytes then
      .error (.corruption "operation plan byte estimates are inconsistent")
    else if sortDedup removalOrder plan.directoriesToRemove ≠ plan.directoriesToRemove ∨
        sortDedup (fun left right => decide (left ≤ right)) plan.directoriesToCreate ≠
          plan.directoriesToCreate then
      .error (.corruption "operation plan directory topology is not normalized")
    else
      validatePlanSelection plan
      validateJournalOperations load plan.checkpointId plan.operations
      validateJournalDirectoryTopology plan.operations plan.directoriesToRemove
        plan.directoriesToCreate

end Shape

/-! The preconditions in the working tree. -/

section Preconditions

variable (canonicalUtc : Timestamp → String) (blake3 : Bytes → Digest32) (tree : WorkingTree)

def hasTrackedAncestor (path : TrackedUnityFilePath)
    (candidates : Finset TrackedUnityFilePath) : Bool :=
  decide (∃ candidate ∈ candidates, path.isStrictDescendant candidate = true)

/-- The state that `recheck_preconditions` finds at the path of an operation. -/
def recheckedState (plan : OperationPlan) (operation : FileOperation) :
    CheckPoResult (Option CurrentFileState) :=
  match tree.symlinkMetadata operation.path.segments with
  | .ok (.file _) => do
      return some (← tree.currentFileStateFromAnchor canonicalUtc blake3 operation.path)
  | .ok .directory =>
      if operation.beforeHash = none ∧ operation.path ∈ plan.directoriesToRemove then .ok none
      else .error (.workingTreeChanged operation.path.text)
  | .ok _ => .error (.workingTreeChanged operation.path.text)
  | .error .notFound => .ok none
  | .error error =>
      if error = .notADirectory ∧
          hasTrackedAncestor operation.path (beforeFiles plan.operations) = true then .ok none
      else .error (ioError tree.root operation.path.segments error)

def recheckOperation (plan : OperationPlan) (operation : FileOperation) : CheckPoResult Unit := do
  if plan.kind = .discard then
    ensureDiscardFolderMetaOperationIsSafe tree operation.path
  let current ← recheckedState canonicalUtc blake3 tree plan operation
  if current.map CurrentFileState.hash ≠ operation.beforeHash ∨
      current.map CurrentFileState.sizeBytes ≠ operation.beforeSizeBytes ∨
      current.map CurrentFileState.modifiedAtUtc ≠ operation.beforeModifiedAtUtc then
    .error (.workingTreeChanged operation.path.text)
  else return ()

def recheckRemovedDirectory (directory : TrackedUnityFilePath) : CheckPoResult Unit :=
  match tree.symlinkMetadata directory.segments with
  | .ok .directory => .ok ()
  | .ok _ => .error (.workingTreeChanged directory.text)
  | .error error => .error (ioError tree.root directory.segments error)

def recheckCreatedDirectory (before : Finset TrackedUnityFilePath)
    (directory : TrackedUnityFilePath) : CheckPoResult Unit :=
  match tree.symlinkMetadata directory.segments with
  | .ok (.file _) =>
      if directory ∈ before then .ok () else .error (.workingTreeChanged directory.text)
  | .ok _ => .error (.workingTreeChanged directory.text)
  | .error .notFound => .ok ()
  | .error error =>
      if error = .notADirectory ∧ hasTrackedAncestor directory before = true then .ok ()
      else .error (ioError tree.root directory.segments error)

def recheckPreconditions (plan : OperationPlan) : CheckPoResult Unit := do
  plan.operations.forM (recheckOperation canonicalUtc blake3 tree plan)
  plan.directoriesToRemove.forM (recheckRemovedDirectory tree)
  plan.directoriesToCreate.forM (recheckCreatedDirectory tree (beforeFiles plan.operations))

variable (load : SnapshotId → CheckPoResult SnapshotFile)
variable (authorizationOf : OperationPlan → CheckPoResult String)

def validateExpectedPlan (plan : OperationPlan) : CheckPoResult Unit := do
  validatePlanShape load plan
  validateOperationPlanAuthorization authorizationOf plan
  recheckPreconditions canonicalUtc blake3 tree plan

end Preconditions

end CheckPo
