/-
Building an operation plan.  A discard first expands the requested paths by companions and
by what stands in the way of a restored file, round by round until nothing is added.
-/
import CheckPo.TransactionPlan

namespace CheckPo

/-! The selection of a discard. -/

section Selection

variable (tree : WorkingTree) (snapshotPaths : Finset TrackedUnityFilePath)

/-- The path without `.meta` of a `.meta` file below `Assets`. -/
def metaAsset (path : TrackedUnityFilePath) : Option String :=
  if "Assets/".toList <+: path.text.toList then stripSuffix ".meta" path.text else none

/-- The `.meta` file of a folder fails with an error. -/
def rejectDirectoryMeta (failure : CheckPoError) (path : TrackedUnityFilePath) :
    CheckPoResult Unit :=
  match metaAsset path with
  | none => .ok ()
  | some asset => do
      let asset ← TrackedUnityFilePath.parse asset
      match ← tree.currentPathKind asset with
      | .directory => .error failure
      | _ => .ok ()

def rejectSelectedDirectoryMeta (selected : List TrackedUnityFilePath) : CheckPoResult Unit :=
  selected.forM fun path => rejectDirectoryMeta tree (.unsafeFolderMetaOperation path.text) path

def ensureDiscardFolderMetaOperationIsSafe (path : TrackedUnityFilePath) : CheckPoResult Unit :=
  rejectDirectoryMeta tree
    (.workingTreeChanged s!"{path.text} became a Unity folder while discard was running") path

def currentCompanionIsRegularFile (path : TrackedUnityFilePath) : CheckPoResult Bool := do
  return (← tree.currentPathKind path) == .file

/-- The companion of a path, where the checkpoint or the project has it. -/
def companionToDiscard (path : TrackedUnityFilePath) :
    CheckPoResult (Finset TrackedUnityFilePath) :=
  match unityAssetCompanionPath path with
  | none => .ok ∅
  | some companion =>
      if companion ∈ snapshotPaths then .ok {companion}
      else do
        if ← currentCompanionIsRegularFile tree companion then return {companion} else return ∅

/-- `add_required_discard_topology_paths`: what stands in the way of a file. -/
def requiredDiscardTopologyPaths (path : TrackedUnityFilePath) :
    CheckPoResult (Finset TrackedUnityFilePath) := do
  match ← tree.currentPathKind path with
  | .blockedByFile blocker => return {blocker}
  | .directory =>
      gatherInto (fun entry => match tree.symlinkMetadata entry with
        | .error error => .error (ioError tree.root entry error)
        | .ok .link => .error (.invalidTrackedPath
            s!"discard topology contains a symbolic link or reparse point: {displayPath tree.root entry}")
        | .ok .directory => .ok ∅
        | .ok .special => .error (.invalidTrackedPath
            s!"discard topology contains a non-regular entry: {displayPath tree.root entry}")
        | .ok (.file _) => do return {← TrackedUnityFilePath.parse (joinParts entry)})
        (tree.files.walk path.segments) ∅
  | .missing | .file => return ∅

/-- One round of the expansion. -/
def discardRound (effective : Finset TrackedUnityFilePath) :
    CheckPoResult (Finset TrackedUnityFilePath) := do
  let effective ← gatherInto (companionToDiscard tree snapshotPaths)
    (effective.sort (· ≤ ·)) effective
  gatherInto (fun path =>
    if path ∈ snapshotPaths then requiredDiscardTopologyPaths tree path else .ok ∅)
    (effective.sort (· ≤ ·)) effective

/-- More rounds than there are paths to add. -/
def discardRounds (selected : List TrackedUnityFilePath) : Nat :=
  snapshotPaths.card + tree.files.paths.card + selected.length + 1

def normalizeDiscardSelectionWithSnapshot (selected : List TrackedUnityFilePath) :
    CheckPoResult (List TrackedUnityFilePath) := do
  rejectSelectedDirectoryMeta tree selected
  let effective ← settle (discardRound tree snapshotPaths)
    (discardRounds tree snapshotPaths selected) selected.toFinset
  return effective.sort (· ≤ ·)

end Selection

/-! The operations. -/

section Build

variable (canonicalUtc : Timestamp → String) (blake3 : Bytes → Digest32) (tree : WorkingTree)

def currentFileStateForDiscard (path : TrackedUnityFilePath) (existsInSnapshot : Bool)
    (selectedPaths : Finset TrackedUnityFilePath) :
    CheckPoResult (Option CurrentFileState) := do
  match ← tree.currentPathKind path with
  | .missing => return none
  | .file => tree.currentFileState canonicalUtc blake3 path
  | .blockedByFile blocker =>
      if blocker ∈ selectedPaths ∨ existsInSnapshot = true then return none
      else .error (.invalidTrackedPath path.text)
  | .directory =>
      if existsInSnapshot = true ∨
          ∃ candidate ∈ selectedPaths, candidate.isStrictDescendant path = true then return none
      else .error (.invalidTrackedPath path.text)

def discardOperations (snapshot : SnapshotFile) (selectedPaths : Finset TrackedUnityFilePath) :
    CheckPoResult (List FileOperation) := do
  let operations ← (selectedPaths.sort (· ≤ ·)).mapM fun path => do
    let file := snapshot.fileAt path
    let current ← currentFileStateForDiscard canonicalUtc blake3 tree path file.isSome selectedPaths
    return fileOperation path file current
  return operations.reduceOption

/-- A scan: the files with their states, and the warnings as texts. -/
abbrev ProjectScan :=
  SnapshotFile → CheckPoResult (List (TrackedUnityFilePath × CurrentFileState) × List String)

-- the loaded checkpoint, the scan of the project and the keyed digest of a plan
variable (load : SnapshotId → CheckPoResult SnapshotFile) (scan : ProjectScan)
variable (authorizationOf : OperationPlan → CheckPoResult String)

/-- `build_unsigned_plan_with_progress_and_cancellation`. -/
def buildUnsignedPlan (checkpointId : SnapshotId) (kind : OperationPlanKind)
    (selected : Option (List TrackedUnityFilePath)) : CheckPoResult OperationPlan := do
  let snapshot ← load checkpointId
  match kind with
  | .restore =>
      let (working, warnings) ← scan snapshot
      let operations := restoreOperations snapshot working
      let (remove, create) ← planDirectoryTopologyChanges tree operations
      return ((OperationPlan.new checkpointId kind none operations).withDirectoryChanges
        remove create).withWarnings warnings
  | .discard =>
      let effective ← orError selected
        (.invalidTrackedPath "discard requires selected tracked paths")
      let effective ← normalizeDiscardSelectionWithSnapshot tree snapshot.pathSet effective
      let operations ← discardOperations canonicalUtc blake3 tree snapshot effective.toFinset
      let (remove, create) ← planDirectoryTopologyChanges tree operations
      return ((OperationPlan.new checkpointId kind (some (effective.toFinset.sort (· ≤ ·)))
        operations).withDirectoryChanges remove create).withWarnings []

/-- The digest is taken of the plan without it. -/
def operationPlanAuthorization (plan : OperationPlan) : CheckPoResult String :=
  authorizationOf { plan with authorization := "" }

/-- `build_plan_with_progress_and_cancellation`. -/
def buildPlan (checkpointId : SnapshotId) (kind : OperationPlanKind)
    (selected : Option (List TrackedUnityFilePath)) : CheckPoResult OperationPlan := do
  let plan ← buildUnsignedPlan canonicalUtc blake3 tree load scan checkpointId kind selected
  return { plan with authorization := ← operationPlanAuthorization authorizationOf plan }

end Build

end CheckPo
