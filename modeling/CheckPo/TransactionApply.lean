/-
Applying an operation plan: the payloads of restored files are staged, the files that go are
backed up before they are removed, directories go and come, and the staged files are
published.  The journal says how far the transaction is.
-/
import CheckPo.TransactionState

namespace CheckPo

/-- `TRANSACTION_BACKUP_FILE_BATCH_SIZE`. -/
def transactionBackupFileBatchSize : Nat := 64

structure ApplyOptions where
  yes : Bool
  /-- `transaction_stage_parallelism`. -/
  stageParallelism : Nat

structure ApplyResult where
  plan : OperationPlan
  applied : Bool
  transactionId : Option String
  warnings : List String

/-- `slice::chunks`. -/
def chunks {α : Type} (size : Nat) : List α → List (List α)
  | [] => []
  | head :: rest =>
      let (first, others) := List.toChunksAux (size - 1) rest (size - 1)
      (head :: first) :: others

/-- `staged_path` below the transaction's directory for staged files. -/
def stagedPath (path : TrackedUnityFilePath) : Path := "staged" :: path.segments

def backupPath (path : TrackedUnityFilePath) : Path := "backup" :: path.segments

/-- `transaction_materialization_temp_path`. -/
def transactionMaterializationTempPath (blake3 : Bytes → Digest32) (path : TrackedUnityFilePath)
    (transactionId : String) : Path :=
  let digest := (blake3 (utf8 transactionId ++ [0] ++ utf8 path.text)).toHex
  let short := String.ofList (digest.toList.take 32)
  path.segments.dropLast ++ [s!".checkpo-{short}.tmp"]

namespace FileOperation

def requiredBeforeHash (operation : FileOperation) : CheckPoResult ObjectId :=
  orError operation.beforeHash
    (.corruption s!"operation missing before hash for {operation.path.text}")

def requiredAfterHash (operation : FileOperation) : CheckPoResult ObjectId :=
  orError operation.afterHash
    (.corruption s!"operation missing after hash for {operation.path.text}")

end FileOperation

/-- `map_destination_exists_to_working_tree_changed`. -/
def mapDestinationExists (path : TrackedUnityFilePath) : CheckPoError → CheckPoError
  | .alreadyExists _ => .workingTreeChanged path.text
  | error => error

section Apply

variable (context : TransactionContext)

/-- The journal with another state, written. -/
def advanceJournal (journal : TransactionJournal) (state : JournalState) :
    TransactionM TransactionJournal := do
  let now ← Durable.inspect fun workspace => .ok (context.nowUtcString workspace)
  let journal := { journal with state := state, updatedAtUtc := now }
  writeJournal journal
  return journal

/-! Staging. -/

/-- `create_dir_all_no_follow` below the directory of all transactions. -/
def createTransactionDirectory (path : Path) : TransactionM Unit :=
  path.inits.forM fun component => do
    match ← Durable.inspect fun workspace => .ok (workspace.payload.entry component) with
    | none => onPayload (Durable.write fun files => files.put component .directory)
    | some .directory => return ()
    | some _ => Durable.lift (.error (.corruption
        s!"unsafe directory path: {displayPath context.transactionRoot component}"))

/-- What is copied into a new file of the transaction, and its time. -/
def fillStagedFile (objectId : ObjectId) (sizeBytes : Nat) (modifiedAtUtc : Option String)
    (content : Bytes) (destination : Path) : TransactionM Unit := do
  Durable.write fun workspace => workspace.writePayload context destination content
  if content.length ≠ sizeBytes ∨ context.blake3 content ≠ objectId then
    Durable.lift (.error (.objectHashMismatch
      s!"{objectId.toHex} expected {sizeBytes} bytes with hash {objectId.toHex}, got {content.length} bytes with hash {(context.blake3 content).toHex}"))
  else do
    let time ← Durable.lift (parseMtime context modifiedAtUtc)
    (match time with
    | some time => Durable.write fun workspace => workspace.setPayloadTime destination time
    | none => pure ())
    let modified ← Durable.inspect fun workspace => .ok (workspace.modified destination)
    Durable.lift (verifyFileMtime context modified (displayPath context.transactionRoot destination)
      modifiedAtUtc)

/-- `stage_object_for_transaction_prepared`. -/
def stageObjectForTransaction (objectId : ObjectId) (destination : Path) (sizeBytes : Nat)
    (modifiedAtUtc : Option String) : TransactionM Unit := do
  let content ← Durable.lift (orError (context.objects objectId) (.objectMissing objectId.toHex))
  Durable.inspect fun workspace => workspace.openPayloadParent context destination
  createPayloadFile context destination
  let result ← Durable.attempt (fillStagedFile context objectId sizeBytes modifiedAtUtc content
    destination)
  match result with
  | .ok () => return ()
  | .error error => do
      let _ ← Durable.attempt (unlinkPayloadFile context destination)
      Durable.lift (.error error)

def stageOperation (snapshot : SnapshotFile) (operation : FileOperation) : TransactionM Unit :=
  if operation.isStaged = true then do
    let file ← Durable.lift (orError (snapshot.fileAt operation.path)
      (.corruption s!"snapshot entry missing for {operation.path.text}"))
    stageObjectForTransaction context file.contentHash (stagedPath operation.path)
      file.contentSizeBytes.toNat operation.afterModifiedAtUtc
  else return ()

/-- The operations of a group are all staged before the first failure counts. -/
def stageGroup (snapshot : SnapshotFile) :
    List FileOperation → TransactionM (List (CheckPoResult Unit))
  | [] => return []
  | operation :: rest => do
      let outcome ← Durable.attempt (stageOperation context snapshot operation)
      return outcome :: (← stageGroup snapshot rest)

/-- The directories of the staged files, each once. -/
def stagedParents (operations : List FileOperation) : List Path :=
  ((operations.filter FileOperation.isStaged).map fun operation =>
    (stagedPath operation.path).dropLast).toFinset.sort (· ≤ ·)

/-- Everything before the journal says that the plan is being applied. -/
def prepareTransaction (stageParallelism : Nat) (plan : OperationPlan)
    (journal : TransactionJournal) : TransactionM TransactionJournal := do
  let snapshot ← Durable.lift (context.load plan.checkpointId)
  (stagedParents plan.operations).forM fun parent =>
    createPayloadParent context (parent ++ [".checkpo-staging-parent-anchor"])
  (chunks stageParallelism plan.operations).forM fun group => do
    let outcomes ← stageGroup context snapshot group
    outcomes.forM Durable.lift
  let journal ← advanceJournal context journal .staged
  Durable.inspect fun workspace => recheckPreconditions context.canonicalUtc context.blake3
    (workspace.workingTree context) plan
  advanceJournal context journal .applying

/-! Backing up. -/

/-- `backup_project_file_deferred`: the path whose file may be removed afterwards. -/
def backupProjectFileDeferred (kind : OperationPlanKind) (operation : FileOperation) :
    TransactionM TrackedUnityFilePath := do
  guardDiscard context kind operation.path
  let expectedHash ← Durable.lift operation.requiredBeforeHash
  let expectedSize ← Durable.lift (orError operation.beforeSizeBytes
    (.corruption s!"backup operation missing before size for {operation.path.text}"))
  let source ← Durable.inspect fun workspace =>
    (workspace.workingTree context).openFile operation.path.segments
  if context.blake3 source.content ≠ expectedHash ∨ source.content.length ≠ expectedSize then
    Durable.lift (.error (.workingTreeChanged operation.path.text))
  else do
    Durable.lift (verifyFileMtime context source.modified
      (displayPath context.projectRoot operation.path.segments) operation.beforeModifiedAtUtc)
    createPayloadParent context (backupPath operation.path)
    match ← Durable.attempt (createPayloadFile context (backupPath operation.path)) with
    | .ok () => do
        Durable.write fun workspace => workspace.writePayload context (backupPath operation.path)
          source.content
        Durable.write fun workspace => workspace.setPayloadTime (backupPath operation.path)
          source.modified
        return operation.path
    | .error error => Durable.lift (.error (mapDestinationExists operation.path error))

/-- `remove_deferred_backup_source`. -/
def removeDeferredBackupSource (kind : OperationPlanKind) (path : TrackedUnityFilePath) :
    TransactionM Unit := do
  guardDiscard context kind path
  Durable.inspect fun workspace => workspace.openProjectParent context path.segments
  unlinkProjectFile context path.segments
  guardDiscard context kind path

/-- A batch is backed up as a whole before its files are removed. -/
def backupBatch (kind : OperationPlanKind) (operations : List FileOperation) :
    TransactionM Unit := do
  let sources ← operations.mapM (backupProjectFileDeferred context kind)
  sources.forM (removeDeferredBackupSource context kind)

/-! Publishing. -/

/-- The copy next to its destination, of which only a rename is left. -/
def fillTemporary (kind : OperationPlanKind) (operation : FileOperation)
    (expectedHash : ObjectId) (expectedSize : Nat) (content : Bytes) (modified : Timestamp)
    (temporary : Path) : TransactionM Unit := do
  Durable.write fun workspace => workspace.writeProject context temporary content
  if content.length ≠ expectedSize ∨ context.blake3 content ≠ expectedHash then
    Durable.lift (.error (.objectHashMismatch
      s!"{operation.path.text} expected {expectedSize} bytes with hash {expectedHash.toHex}, got {content.length} bytes with hash {(context.blake3 content).toHex}"))
  else do
    Durable.lift (verifyFileMtime context modified
      (displayPath context.transactionRoot (stagedPath operation.path)) operation.afterModifiedAtUtc)
    let time ← Durable.lift (parseMtime context operation.afterModifiedAtUtc)
    setGivenProjectTime temporary time
    let readback ← Durable.inspect fun workspace =>
      (workspace.workingTree context).openFile temporary
    Durable.lift (verifyFileMtime context readback.modified
      (displayPath context.projectRoot temporary) operation.afterModifiedAtUtc)
    guardDiscard context kind operation.path
    match ← Durable.attempt (renameProjectFile context temporary operation.path.segments) with
    | .ok () => return ()
    | .error error => Durable.lift (.error (mapDestinationExists operation.path error))

/-- The staged file is copied next to its destination and renamed; it remains. -/
def publishCopy (kind : OperationPlanKind) (operation : FileOperation) (transactionId : String)
    (expectedHash : ObjectId) (expectedSize : Nat) (content : Bytes) (modified : Timestamp) :
    TransactionM Bool := do
  let temporary := transactionMaterializationTempPath context.blake3 operation.path transactionId
  createProjectFile context temporary
  let result ← Durable.attempt (fillTemporary context kind operation expectedHash expectedSize
    content modified temporary)
  match result with
  | .ok () => do
      guardDiscard context kind operation.path
      return true
  | .error error => do
      let _ ← Durable.attempt (unlinkProjectFile context temporary)
      Durable.lift (.error error)

/-- `restore_new_staged_file_to_project_deferred`: whether the staged file remains. -/
def restoreNewStagedFileToProject (kind : OperationPlanKind) (operation : FileOperation)
    (transactionId : String) : TransactionM Bool := do
  if operation.isStaged = false then
    Durable.lift (.error (.corruption
      s!"deferred staged publish received an unsupported operation for {operation.path.text}"))
  else do
    let expectedHash ← Durable.lift operation.requiredAfterHash
    let expectedSize ← Durable.lift (orError operation.afterSizeBytes
      (.corruption s!"restore operation missing after size for {operation.path.text}"))
    let staged := stagedPath operation.path
    let stagedText := displayPath context.transactionRoot staged
    let (content, modified) ← Durable.inspect fun workspace =>
      match workspace.openPayloadFile context staged with
      | .error (.corruption message) => .error (.objectHashMismatch message)
      | result => result
    if content.length ≠ expectedSize then
      Durable.lift (.error (.objectHashMismatch
        s!"{stagedText} expected {expectedSize} bytes, got {content.length} bytes"))
    else do
      Durable.lift (verifyFileMtime context modified stagedText operation.afterModifiedAtUtc)
      createProjectParent context operation.path.segments
      if context.volumes = .definitelyDifferent then
        publishCopy context kind operation transactionId expectedHash expectedSize content modified
      else if context.blake3 content ≠ expectedHash then
        Durable.lift (.error (.objectHashMismatch
          s!"{stagedText} expected {expectedSize} bytes with hash {expectedHash.toHex}, got {content.length} bytes with hash {(context.blake3 content).toHex}"))
      else do
        guardDiscard context kind operation.path
        if context.volumes = .crossDevice then
          publishCopy context kind operation transactionId expectedHash expectedSize content
            modified
        else do
          let occupied ← Durable.inspect fun workspace =>
            .ok (workspace.project.entry operation.path.segments).isSome
          if occupied = true then
            Durable.lift (.error (.workingTreeChanged operation.path.text))
          else do
            Durable.write fun workspace => workspace.publish staged operation.path.segments
            guardDiscard context kind operation.path
            return false

/-! Metadata. -/

/-- `set_project_file_mtime`. -/
def setProjectFileMtime (operation : FileOperation) (target : String) : TransactionM Unit := do
  let file ← Durable.inspect fun workspace =>
    (workspace.workingTree context).openFile operation.path.segments
  if operation.beforeHash ≠ some (context.blake3 file.content) ∨
      operation.beforeSizeBytes ≠ some file.content.length ∨
      operation.beforeModifiedAtUtc ≠ some (context.canonicalUtc file.modified) then
    Durable.lift (.error (.workingTreeChanged operation.path.text))
  else match context.parseRfc3339 target with
    | .error message => Durable.lift (.error (.corruption message))
    | .ok time => do
        Durable.write fun workspace => workspace.setProjectTime operation.path.segments time
        if context.canonicalUtc time ≠ target then
          Durable.lift (.error (.corruption
            s!"metadata readback mismatch for {operation.path.text}: expected {target}, got {context.canonicalUtc time}"))
        else return ()

/-! The operations in their order. -/

/-- One operation; what remains staged is removed after the transaction. -/
def applyOperation (kind : OperationPlanKind) (transactionId : String)
    (remaining : List FileOperation) (operation : FileOperation) :
    TransactionM (List FileOperation) :=
  match operation.operationType with
  | .delete => return remaining
  | .restore | .replace => do
      if ← restoreNewStagedFileToProject context kind operation transactionId then
        return remaining ++ [operation]
      else return remaining
  | .setMetadata => do
      let target ← Durable.lift (orError operation.afterModifiedAtUtc
        (.corruption s!"metadata operation missing target mtime for {operation.path.text}"))
      setProjectFileMtime context operation target
      return remaining

/-- `cleanup_cross_volume_staged_sources_after_commit`. -/
def cleanupStagedSource (operation : FileOperation) : TransactionM Unit := do
  let staged := stagedPath operation.path
  let (content, modified) ← Durable.inspect fun workspace =>
    workspace.openPayloadFile context staged
  let stagedText := displayPath context.transactionRoot staged
  if some (context.blake3 content) ≠ operation.afterHash ∨
      some content.length ≠ operation.afterSizeBytes then
    Durable.lift (.error (.objectHashMismatch s!"staged cleanup source changed: {stagedText}"))
  else do
    Durable.lift (verifyFileMtime context modified stagedText operation.afterModifiedAtUtc)
    unlinkPayloadFile context staged

/-- From the journal that says so to the journal that says the transaction is committed. -/
def applyOperations (plan : OperationPlan) (transactionId : String) :
    TransactionM (List FileOperation) := do
  (chunks transactionBackupFileBatchSize (plan.operations.filter FileOperation.isBackedUp)).forM
    (backupBatch context plan.kind)
  plan.directoriesToRemove.forM (removeProjectDirectory context)
  plan.directoriesToCreate.forM (createProjectDirectory context)
  plan.operations.foldlM (applyOperation context plan.kind transactionId) []

/-! The whole transaction. -/

-- the digest of a plan, and the check of the free space
variable (authorizationOf : OperationPlan → CheckPoResult String)
variable (ensureCapacity : OperationPlan → CheckPoResult Unit)

/-- `apply_plan_once`. -/
def applyPlanOnce (options : ApplyOptions) (plan : OperationPlan) (transactionId : String) :
    TransactionM ApplyResult := do
  if options.yes = false then Durable.lift (.error (.user "apply requires --yes."))
  else if plan.warnings ≠ [] then
    Durable.lift (.error (.user
      ("operation cannot be applied while scan warnings exist: " ++ "; ".intercalate plan.warnings)))
  else do
    Durable.inspect fun workspace => validateExpectedPlan context.canonicalUtc context.blake3
      (workspace.workingTree context) context.load authorizationOf plan
    if plan.hasChanges = false then return ⟨plan, false, none, []⟩
    else do
      Durable.lift (ensureCapacity plan)
      createTransactionDirectory context ["staged"]
      createTransactionDirectory context ["backup"]
      let now ← Durable.inspect fun workspace => .ok (context.nowUtcString workspace)
      let created : TransactionJournal :=
        { schemaVersion := transactionJournalSchemaVersion
          transactionId := transactionId
          state := .created
          checkpointId := plan.checkpointId
          kind := plan.kind
          operations := plan.operations
          directoriesToRemove := plan.directoriesToRemove
          directoriesToCreate := plan.directoriesToCreate
          createdAtUtc := now
          updatedAtUtc := now }
      writeJournal created
      match ← Durable.attempt (prepareTransaction context options.stageParallelism plan created) with
      | .error error => do
          let _ ← advanceJournal context created .recovered
          let _ ← Durable.attempt (removeRepositoryTreeIfExists context ["staged"])
          Durable.lift (.error error)
      | .ok applying => do
          let remaining ← applyOperations context plan transactionId
          let _ ← advanceJournal context applying .committed
          match ← Durable.attempt (remaining.forM (cleanupStagedSource context)) with
          | .ok () => return ⟨plan, true, some transactionId, []⟩
          | .error error => return ⟨plan, true, some transactionId,
              [s!"restore was committed, but private staged payload cleanup remains pending: {error.message}"]⟩

end Apply

end CheckPo
