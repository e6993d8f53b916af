/-
Operation plans: what a restore or a discard would change, worked out from a checkpoint
and the working tree.
-/
import CheckPo.FinsetClosure
import CheckPo.WorkingTree

namespace CheckPo

def operationPlanSchemaVersion : UInt32 := 2

inductive OperationPlanKind where
  | restore
  | discard
deriving DecidableEq

inductive FileOperationType where
  | restore
  | replace
  | delete
  | setMetadata
deriving DecidableEq

structure FileOperation where
  operationType : FileOperationType
  path : TrackedUnityFilePath
  beforeHash : Option ObjectId
  beforeSizeBytes : Option Nat
  beforeModifiedAtUtc : Option String
  afterHash : Option ObjectId
  afterSizeBytes : Option Nat
  afterModifiedAtUtc : Option String
deriving DecidableEq

namespace FileOperation

/-- The payload of the operation is staged. -/
def isStaged (operation : FileOperation) : Bool :=
  operation.operationType == .restore || operation.operationType == .replace

/-- The file is backed up before it goes. -/
def isBackedUp (operation : FileOperation) : Bool :=
  operation.operationType == .delete || operation.operationType == .replace

end FileOperation

structure OperationPlan where
  schemaVersion : UInt32
  authorization : String
  checkpointId : SnapshotId
  kind : OperationPlanKind
  selectedPaths : Option (List TrackedUnityFilePath)
  operations : List FileOperation
  directoriesToRemove : List TrackedUnityFilePath
  directoriesToCreate : List TrackedUnityFilePath
  warnings : List String
  restoreCount : Nat
  replaceCount : Nat
  deleteCount : Nat
  metadataCount : Nat
  stagedBytes : Nat
  backupBytes : Nat
  estimatedTemporaryBytes : Nat
  hasChanges : Bool
deriving DecidableEq

/-- `u64::saturating_add`. -/
def saturatingAdd (left right : Nat) : Nat := min (left + right) (2 ^ 64 - 1)

def sortOperations (operations : List FileOperation) : List FileOperation :=
  operations.mergeSort fun left right => decide (left.path ≤ right.path)

/-- The deepest directories first. -/
def removalOrder (left right : TrackedUnityFilePath) : Bool :=
  let depth (path : TrackedUnityFilePath) := path.text.toList.count '/'
  depth right < depth left || (depth left == depth right && decide (left ≤ right))

/-- `Vec::dedup` of what was sorted. -/
def sortDedup (order : TrackedUnityFilePath → TrackedUnityFilePath → Bool)
    (paths : List TrackedUnityFilePath) : List TrackedUnityFilePath :=
  (paths.mergeSort order).destutter (· ≠ ·)

namespace OperationPlan

def countOf (operations : List FileOperation) (kind : FileOperationType) : Nat :=
  operations.countP fun operation => operation.operationType == kind

def stagedSizes (operations : List FileOperation) : List Nat :=
  (operations.filter FileOperation.isStaged).filterMap FileOperation.afterSizeBytes

def backupSizes (operations : List FileOperation) : List Nat :=
  (operations.filter FileOperation.isBackedUp).filterMap FileOperation.beforeSizeBytes

/-- `OperationPlan::new`. -/
def new (checkpointId : SnapshotId) (kind : OperationPlanKind)
    (selectedPaths : Option (List TrackedUnityFilePath)) (operations : List FileOperation) :
    OperationPlan :=
  let operations := sortOperations operations
  let stagedBytes := (stagedSizes operations).foldl saturatingAdd 0
  let backupBytes := (backupSizes operations).foldl saturatingAdd 0
  { schemaVersion := operationPlanSchemaVersion
    authorization := ""
    checkpointId := checkpointId
    kind := kind
    selectedPaths := selectedPaths
    operations := operations
    directoriesToRemove := []
    directoriesToCreate := []
    warnings := []
    restoreCount := countOf operations .restore
    replaceCount := countOf operations .replace
    deleteCount := countOf operations .delete
    metadataCount := countOf operations .setMetadata
    stagedBytes := stagedBytes
    backupBytes := backupBytes
    estimatedTemporaryBytes := saturatingAdd stagedBytes backupBytes
    hasChanges := !operations.isEmpty }

def withWarnings (plan : OperationPlan) (warnings : List String) : OperationPlan :=
  { plan with warnings := warnings }

def withDirectoryChanges (plan : OperationPlan)
    (directoriesToRemove directoriesToCreate : List TrackedUnityFilePath) : OperationPlan :=
  let directoriesToRemove := sortDedup removalOrder directoriesToRemove
  let directoriesToCreate := sortDedup (fun left right => decide (left ≤ right)) directoriesToCreate
  { plan with
    hasChanges := plan.hasChanges || !directoriesToRemove.isEmpty || !directoriesToCreate.isEmpty
    directoriesToRemove := directoriesToRemove
    directoriesToCreate := directoriesToCreate }

end OperationPlan

/-! What a checkpoint says of a path. -/

/-- `snapshot_map.get`; the map was collected from the files in their order. -/
def SnapshotFile.fileAt (snapshot : SnapshotFile) (path : TrackedUnityFilePath) :
    Option SnapshotEntry :=
  snapshot.files.reverse.find? fun file => file.path == path

def SnapshotFile.pathSet (snapshot : SnapshotFile) : Finset TrackedUnityFilePath :=
  (snapshot.files.map SnapshotEntry.path).toFinset

/-- The operation that brings a path from its current state to that of the checkpoint. -/
def fileOperation (path : TrackedUnityFilePath) (file : Option SnapshotEntry)
    (current : Option CurrentFileState) : Option FileOperation :=
  let change (operationType : FileOperationType) : FileOperation :=
    { operationType := operationType
      path := path
      beforeHash := current.map CurrentFileState.hash
      beforeSizeBytes := current.map CurrentFileState.sizeBytes
      beforeModifiedAtUtc := current.map CurrentFileState.modifiedAtUtc
      afterHash := file.map SnapshotEntry.contentHash
      afterSizeBytes := file.map fun file => file.contentSizeBytes.toNat
      afterModifiedAtUtc := file.map SnapshotEntry.modifiedAtUtc }
  match file, current with
  | some _, none => some (change .restore)
  | some file, some current =>
      if current.hash ≠ file.contentHash then some (change .replace)
      else if current.modifiedAtUtc ≠ file.modifiedAtUtc then some (change .setMetadata)
      else none
  | none, some _ => some (change .delete)
  | none, none => none

theorem fileAt_isSome_iff {snapshot : SnapshotFile} {path : TrackedUnityFilePath} :
    (snapshot.fileAt path).isSome = true ↔ path ∈ snapshot.pathSet := by
  rw [SnapshotFile.fileAt, List.find?_isSome, SnapshotFile.pathSet, List.mem_toFinset, List.mem_map]
  simp only [List.mem_reverse, beq_iff_eq]

section Operation

variable {path : TrackedUnityFilePath} {file : Option SnapshotEntry}
  {current : Option CurrentFileState} {operation : FileOperation}

/-- What an operation says of the file before and after it. -/
theorem fileOperation_fields (h : fileOperation path file current = some operation) :
    operation.path = path ∧
      operation.beforeHash = current.map CurrentFileState.hash ∧
      operation.beforeSizeBytes = current.map CurrentFileState.sizeBytes ∧
      operation.beforeModifiedAtUtc = current.map CurrentFileState.modifiedAtUtc ∧
      operation.afterHash = file.map SnapshotEntry.contentHash ∧
      operation.afterSizeBytes = file.map (fun file => file.contentSizeBytes.toNat) ∧
      operation.afterModifiedAtUtc = file.map SnapshotEntry.modifiedAtUtc := by
  rcases file with _ | file <;> rcases current with _ | current <;>
    simp only [fileOperation, reduceCtorEq, Option.some.injEq] at h
  · exact h ▸ ⟨rfl, rfl, rfl, rfl, rfl, rfl, rfl⟩
  · exact h ▸ ⟨rfl, rfl, rfl, rfl, rfl, rfl, rfl⟩
  · split at h
    · exact Option.some.inj h ▸ ⟨rfl, rfl, rfl, rfl, rfl, rfl, rfl⟩
    · split at h
      · exact Option.some.inj h ▸ ⟨rfl, rfl, rfl, rfl, rfl, rfl, rfl⟩
      · cases h

/-- The kind of an operation follows from what there is before and after it. -/
theorem fileOperation_type (h : fileOperation path file current = some operation) :
    (operation.operationType = .restore ∧ current = none ∧ file.isSome = true) ∨
      (operation.operationType = .replace ∧ ∃ found wanted, current = some found ∧
        file = some wanted ∧ found.hash ≠ wanted.contentHash) ∨
      (operation.operationType = .delete ∧ current.isSome = true ∧ file = none) ∨
      (operation.operationType = .setMetadata ∧ ∃ found wanted, current = some found ∧
        file = some wanted ∧ found.hash = wanted.contentHash ∧
        found.modifiedAtUtc ≠ wanted.modifiedAtUtc) := by
  rcases file with _ | file <;> rcases current with _ | current <;>
    simp only [fileOperation, reduceCtorEq, Option.some.injEq] at h
  · exact Or.inr (Or.inr (Or.inl (h ▸ ⟨rfl, rfl, rfl⟩)))
  · exact Or.inl (h ▸ ⟨rfl, rfl, rfl⟩)
  · split at h
    · next hhash =>
        exact Or.inr (Or.inl (Option.some.inj h ▸ ⟨rfl, current, file, rfl, rfl, hhash⟩))
    · next hhash =>
        split at h
        · next hmodified =>
            exact Or.inr (Or.inr (Or.inr (Option.some.inj h ▸
              ⟨rfl, current, file, rfl, rfl, not_not.mp hhash, hmodified⟩)))
        · cases h

end Operation

/-- The operations of a restore, from all files that a scan found. -/
def restoreOperations (snapshot : SnapshotFile)
    (working : List (TrackedUnityFilePath × CurrentFileState)) : List FileOperation :=
  let currentOf (path : TrackedUnityFilePath) :=
    (working.reverse.find? fun entry => entry.1 == path).map Prod.snd
  snapshot.files.filterMap (fun file => fileOperation file.path (some file) (currentOf file.path)) ++
    ((working.map Prod.fst).toFinset.sort (· ≤ ·)).filterMap fun path =>
      match snapshot.fileAt path with
      | some _ => none
      | none => fileOperation path none (currentOf path)

/-! Which directories have to go and to come. -/

section Topology

variable (tree : WorkingTree)

/-- The directories at the place of a file, with the files below them planned to go. -/
def blockingDirectories (deleted : Finset TrackedUnityFilePath) (path : TrackedUnityFilePath) :
    CheckPoResult (Finset TrackedUnityFilePath) :=
  match tree.symlinkMetadata path.segments with
  | .ok .link => .error (.invalidTrackedPath
      s!"{path.text} is a symbolic link or reparse point")
  | .ok .directory =>
      gatherInto (fun entry => match tree.symlinkMetadata entry with
        | .error error => .error (ioError tree.root entry error)
        | .ok .link => .error (.invalidTrackedPath
            s!"directory topology contains a symbolic link or reparse point: {displayPath tree.root entry}")
        | .ok .directory => do return {← TrackedUnityFilePath.parse (joinParts entry)}
        | .ok (.file _) => do
            let tracked ← TrackedUnityFilePath.parse (joinParts entry)
            if tracked ∉ deleted then
              .error (.workingTreeChanged
                s!"directory blocker contains an unplanned file: {tracked.text}")
            else return ∅
        | .ok .special => .error (.invalidTrackedPath
            s!"directory topology contains a non-regular entry: {displayPath tree.root entry}"))
        (path.segments :: tree.files.walk path.segments) ∅
  | .ok (.file _) => .ok ∅
  | .ok .special => .error (.invalidTrackedPath
      s!"{path.text} is not a regular file or directory")
  | .error .notFound | .error .notADirectory => .ok ∅
  | .error error => .error (ioError tree.root path.segments error)

/-- The directories above a file that are not there, or where a file stands that goes;
the tracked root itself is not looked at. -/
def missingDirectoriesFrom (before : Finset TrackedUnityFilePath) (path : TrackedUnityFilePath)
    (done : Path) (missingOrBlocked : Bool) : Path → CheckPoResult (Finset TrackedUnityFilePath)
  | name :: leaf :: rest =>
      let current := done ++ [name]
      if done = [] then missingDirectoriesFrom before path current missingOrBlocked (leaf :: rest)
      else do
        let directory ← TrackedUnityFilePath.parse (joinParts current)
        if missingOrBlocked = true then
          return insert directory (← missingDirectoriesFrom before path current true (leaf :: rest))
        else match tree.symlinkMetadata current with
          | .ok .link => .error (.invalidTrackedPath
              s!"{path.text} contains a symbolic link or reparse point parent: {displayPath tree.root current}")
          | .ok .directory => missingDirectoriesFrom before path current false (leaf :: rest)
          | .ok (.file _) =>
              if directory ∈ before then
                return insert directory
                  (← missingDirectoriesFrom before path current true (leaf :: rest))
              else .error (.invalidTrackedPath
                s!"unsafe parent component for {path.text}: {displayPath tree.root current}")
          | .ok .special => .error (.invalidTrackedPath
              s!"unsafe parent component for {path.text}: {displayPath tree.root current}")
          | .error .notFound =>
              return insert directory
                (← missingDirectoriesFrom before path current true (leaf :: rest))
          | .error error => .error (ioError tree.root current error)
  | _ => .ok ∅

def beforeFiles (operations : List FileOperation) : Finset TrackedUnityFilePath :=
  ((operations.filter fun operation => operation.beforeHash.isSome).map
    FileOperation.path).toFinset

def deletedFiles (operations : List FileOperation) : Finset TrackedUnityFilePath :=
  ((operations.filter fun operation => operation.operationType == .delete).map
    FileOperation.path).toFinset

def afterFiles (operations : List FileOperation) : List TrackedUnityFilePath :=
  (operations.filter fun operation => operation.afterHash.isSome).map FileOperation.path

/-- `plan_directory_topology_changes`. -/
def planDirectoryTopologyChanges (operations : List FileOperation) :
    CheckPoResult (List TrackedUnityFilePath × List TrackedUnityFilePath) := do
  let (remove, create) ← (afterFiles operations).foldlM
    (fun (remove, create) path => do
      let blocking ← blockingDirectories tree (deletedFiles operations) path
      let missing ← missingDirectoriesFrom tree (beforeFiles operations) path [] false path.segments
      return (remove ∪ blocking, create ∪ missing))
    ((∅, ∅) : Finset TrackedUnityFilePath × Finset TrackedUnityFilePath)
  return ((remove.sort (· ≤ ·)).mergeSort removalOrder, create.sort (· ≤ ·))

end Topology

end CheckPo
