/-
Recovering an interrupted transaction: what it left in the project is undone from the
content that is there and from the backups, then the journal says so.
-/
import CheckPo.SnapshotRoots
import CheckPo.TransactionApply

namespace CheckPo

/-- `is_checkpo_atomic_materialization_temporary_file`. -/
def isAtomicMaterializationTemporaryName (name : String) : Bool :=
  match stripSuffix ".tmp" name with
  | none => false
  | some body => ".checkpo-".toList.isPrefixOf body.toList &&
      isLowerHex (String.ofList (body.toList.drop ".checkpo-".length)) 32

/-- `recovery_after_path`: where a file is held before it goes. -/
def recoveryAfterPath (blake3 : Bytes → Digest32) (path : TrackedUnityFilePath)
    (transactionId : String) : Path :=
  let short := String.ofList ((blake3 (utf8 path.text)).toHex.toList.take 16)
  path.segments.dropLast ++ [s!".checkpo-r-{short}-{transactionId}.tmp"]

/-- Where the content of a file that goes is kept. -/
def recoveryAfterCopy (hash : ObjectId) : Path := ["recovery-after", hash.toHex]

namespace Workspace

variable (context : TransactionContext) (workspace : Workspace)

/-- `validate_transaction_payload`. -/
def validateTransactionPayload (root : Path) (allowed : Finset TrackedUnityFilePath) :
    CheckPoResult (Finset TrackedUnityFilePath) :=
  match workspace.payload.entry root with
  | none => .ok ∅
  | some .directory =>
      gatherInto (fun entry => match workspace.payload.entry entry with
        | some .link => .error (.corruption
            s!"transaction payload contains a symlink: {displayPath context.transactionRoot entry}")
        | some .directory => .ok ∅
        | some (.file _) => do
            let relative := String.ofList ((joinParts (entry.drop root.length)).toList.map
              fun character => if character = '\\' then '/' else character)
            let path ← TrackedUnityFilePath.parse relative
            if path ∈ allowed then return {path}
            else if isAtomicMaterializationTemporaryName (entry.getLastD "") = true then return ∅
            else .error (.corruption
              s!"transaction payload contains an unexpected path: {path.text}")
        | _ => .error (.corruption
            s!"transaction payload contains a non-regular file: {displayPath context.transactionRoot entry}"))
        (workspace.payload.walk root) ∅
  | some _ => .error (.corruption
      s!"transaction payload root is not a regular directory: {displayPath context.transactionRoot root}")

def currentHashForRecovery (path : TrackedUnityFilePath)
    (beforePaths : Finset TrackedUnityFilePath) : CheckPoResult (Option ObjectId) := do
  return (← currentFileStateForRecovery context.canonicalUtc context.blake3
    (workspace.workingTree context) path beforePaths).map CurrentFileState.hash

/-- `existing_held_after_file`. -/
def existingHeldAfterFile (path : TrackedUnityFilePath) (transactionId : String)
    (expectedHash : ObjectId) : CheckPoResult (Option Path) :=
  let held := recoveryAfterPath context.blake3 path transactionId
  match (workspace.workingTree context).resolveFrom (fun _ => .error .notADirectory) [] held with
  | .error .notFound | .error .notADirectory => .ok none
  | .error error => .error (ioError context.projectRoot held error)
  | .ok (.file file) =>
      if context.blake3 file.content ≠ expectedHash then
        .error (.objectHashMismatch
          s!"{displayPath context.projectRoot held} expected {expectedHash.toHex}, got {(context.blake3 file.content).toHex}")
      else .ok (some held)
  | .ok _ => .error (.corruption
      s!"recovery quarantine is not a regular file: {displayPath context.projectRoot held}")

/-- `backup_regular_file_exists`. -/
def backupRegularFileExists (path : Path) : CheckPoResult Bool :=
  match workspace.payload.resolve path with
  | .error .notFound => .ok false
  | .error error => .error (ioError context.transactionRoot path error)
  | .ok (.file _) => .ok true
  | .ok _ => .error (.objectHashMismatch
      s!"{displayPath context.transactionRoot path} is not a regular file")

/-- `transaction_needs_rollback`. -/
def transactionNeedsRollback (journal : TransactionJournal)
    (backupPaths stagedPaths : Finset TrackedUnityFilePath) : CheckPoResult Bool :=
  if journal.state = .applying ∨ backupPaths ≠ ∅ then .ok true
  else if journal.state ≠ .staged then .ok false
  else
    let rec published : List FileOperation → CheckPoResult Bool
      | [] => .ok false
      | operation :: rest => match operation.afterHash with
        | none => published rest
        | some afterHash => do
            if operation.path ∈ stagedPaths then published rest
            else
              let current ← (workspace.workingTree context).currentFileState context.canonicalUtc
                context.blake3 operation.path
              if current.map CurrentFileState.hash = some afterHash then return true
              else published rest
    published journal.operations

end Workspace

section Rollback

variable (context : TransactionContext)

/-! Leftovers. -/

/-- `cleanup_transaction_materialization_temps`, for one operation. -/
def cleanupMaterializationTemp (transactionId : String) (operation : FileOperation) :
    TransactionM Unit := do
  let temporary := transactionMaterializationTempPath context.blake3 operation.path transactionId
  match ← Durable.inspect fun workspace => .ok ((workspace.workingTree context).resolveFrom
      (fun _ => .error .notADirectory) [] temporary) with
  | .error .notFound | .error .notADirectory => return ()
  | .error error => Durable.lift (.error (ioError context.projectRoot temporary error))
  | .ok (.file _) => unlinkProjectFile context temporary
  | .ok _ => Durable.lift (.error (.corruption
      s!"transaction materialization temp is not a regular file: {displayPath context.projectRoot temporary}"))

/-! Files that came. -/

/-- The copy under a temporary name, and its rename. -/
def fillPreserved (expectedHash : ObjectId) (content : Bytes) (temporary preserved : Path) :
    TransactionM Unit := do
  Durable.write fun workspace => workspace.writePayload context temporary content
  if context.blake3 content ≠ expectedHash then
    Durable.lift (.error (.objectHashMismatch
      s!"recovery preservation copy mismatch: {displayPath context.transactionRoot preserved}"))
  else do
    let occupied ← Durable.inspect fun workspace => .ok (workspace.payload.entry preserved).isSome
    if occupied = true then
      Durable.lift (.error (.alreadyExists (displayPath context.transactionRoot preserved)))
    else Durable.write fun workspace =>
      { workspace with
        payload := workspace.payload.move temporary preserved
        modified := Function.update workspace.modified preserved (workspace.modified temporary) }

/-- `preserve_after_file_for_recovery`. -/
def preserveAfterFileForRecovery (source : Path) (expectedHash : ObjectId) :
    TransactionM Unit := do
  let preserved := recoveryAfterCopy expectedHash
  let preservedText := displayPath context.transactionRoot preserved
  createPayloadParent context preserved
  match ← Durable.inspect fun workspace => .ok (workspace.openPayloadFile context preserved) with
  | .ok (content, _) =>
      if context.blake3 content ≠ expectedHash then
        Durable.lift (.error (.objectHashMismatch
          s!"{preservedText} expected {expectedHash.toHex}, got {(context.blake3 content).toHex}"))
      else return ()
  | .error (.notFound _) => do
      let short := String.ofList (expectedHash.toHex.toList.take 16)
      let temporary := ["recovery-after", s!".checkpo-preserve-{short}.tmp"]
      let leftover ← Durable.inspect fun workspace =>
        .ok (workspace.openPayloadFile context temporary)
      (match leftover with
      | .ok _ => unlinkPayloadFile context temporary
      | .error _ => pure ())
      let file ← Durable.inspect fun workspace => (workspace.workingTree context).openFile source
      if context.blake3 file.content ≠ expectedHash then
        Durable.lift (.error (.objectHashMismatch
          s!"{displayPath context.projectRoot source} expected {expectedHash.toHex}, got {(context.blake3 file.content).toHex}"))
      else do
        createPayloadFile context temporary
        match ← Durable.attempt (fillPreserved context expectedHash file.content temporary
            preserved) with
        | .ok () => return ()
        | .error error => do
            let _ ← Durable.attempt (unlinkPayloadFile context temporary)
            Durable.lift (.error error)
  | .error (.corruption _) => Durable.lift (.error (.corruption
      s!"recovery copy is not a regular file: {preservedText}"))
  | .error error => Durable.lift (.error error)

/-- `remove_anchored_project_file`. -/
def removeAnchoredProjectFile (path : Path) (expectedHash : ObjectId) : TransactionM Unit := do
  let file ← Durable.inspect fun workspace => (workspace.workingTree context).openFile path
  if context.blake3 file.content ≠ expectedHash then
    Durable.lift (.error (.objectHashMismatch
      s!"{displayPath context.projectRoot path} expected {expectedHash.toHex}, got {(context.blake3 file.content).toHex}"))
  else unlinkProjectFile context path

/-- `remove_existing_held_after_file`. -/
def removeExistingHeldAfterFile (path : TrackedUnityFilePath) (transactionId : String)
    (expectedHash : ObjectId) : TransactionM Unit := do
  match ← Durable.inspect fun workspace =>
      workspace.existingHeldAfterFile context path transactionId expectedHash with
  | none => return ()
  | some held => do
      preserveAfterFileForRecovery context held expectedHash
      removeAnchoredProjectFile context held expectedHash

/-- `remove_after_file_for_recovery`. -/
def removeAfterFileForRecovery (path : TrackedUnityFilePath) (transactionId : String)
    (expectedHash : ObjectId) : TransactionM Unit := do
  match ← Durable.inspect fun workspace =>
      workspace.existingHeldAfterFile context path transactionId expectedHash with
  | some _ => Durable.lift (.error (.workingTreeChanged path.text))
  | none => do
      preserveAfterFileForRecovery context path.segments expectedHash
      let file ← Durable.inspect fun workspace =>
        (workspace.workingTree context).openFile path.segments
      if context.blake3 file.content ≠ expectedHash then
        Durable.lift (.error (.workingTreeChanged path.text))
      else do
        let held := recoveryAfterPath context.blake3 path transactionId
        renameProjectFile context path.segments held
        unlinkProjectFile context held

/-- What the rollback does for a file that was restored or replaced. -/
def rollbackAfterFile (journal : TransactionJournal)
    (beforePaths : Finset TrackedUnityFilePath) (operation : FileOperation) :
    TransactionM Unit := do
  guardDiscard context journal.kind operation.path
  match operation.afterHash with
  | none => return ()
  | some afterHash => do
      removeExistingHeldAfterFile context operation.path journal.transactionId afterHash
      let current ← Durable.inspect fun workspace =>
        workspace.currentHashForRecovery context operation.path beforePaths
      (match current with
      | some current =>
          if current = afterHash then
            removeAfterFileForRecovery context operation.path journal.transactionId afterHash
          else if operation.beforeHash = some current then pure ()
          else Durable.lift (.error (.workingTreeChanged operation.path.text))
      | none => pure ())
      guardDiscard context journal.kind operation.path

/-! Directories. -/

/-- What the rollback does for a directory that was made. -/
def rollbackCreatedDirectory (beforePaths : Finset TrackedUnityFilePath)
    (directory : TrackedUnityFilePath) : TransactionM Unit := do
  match ← Durable.inspect fun workspace =>
      .ok ((workspace.workingTree context).symlinkMetadata directory.segments) with
  | .ok .directory => removeProjectDirectory context directory
  | .ok (.file _) =>
      if directory ∈ beforePaths then return ()
      else Durable.lift (.error (.workingTreeChanged directory.text))
  | .ok _ => Durable.lift (.error (.workingTreeChanged directory.text))
  | .error .notFound | .error .notADirectory => return ()
  | .error error => Durable.lift (.error (ioError context.projectRoot directory.segments error))

/-- `ensure_project_directory_exists_for_recovery`. -/
def ensureProjectDirectoryExistsForRecovery (directory : TrackedUnityFilePath) :
    TransactionM Unit := do
  match ← Durable.inspect fun workspace =>
      .ok (workspace.openProjectDirectory context directory.segments) with
  | .ok () => return ()
  | .error (.notFound _) => createProjectDirectory context directory
  | .error (.corruption _) => Durable.lift (.error (.workingTreeChanged directory.text))
  | .error error => Durable.lift (.error error)

/-! Files that went. -/

/-- `restore_before_mtime_for_recovery`. -/
def restoreBeforeMtimeForRecovery (operation : FileOperation) : TransactionM Unit := do
  let expectedHash ← Durable.lift operation.requiredBeforeHash
  let expectedSize ← Durable.lift (orError operation.beforeSizeBytes
    (.corruption s!"recovery operation missing before size for {operation.path.text}"))
  let before ← Durable.lift (orError operation.beforeModifiedAtUtc
    (.corruption s!"recovery operation missing before mtime for {operation.path.text}"))
  let file ← Durable.inspect fun workspace =>
    (workspace.workingTree context).openFile operation.path.segments
  if context.blake3 file.content ≠ expectedHash ∨ file.content.length ≠ expectedSize then
    Durable.lift (.error (.workingTreeChanged operation.path.text))
  else do
    let time ← Durable.lift (parseMtime context (some before))
    setGivenProjectTime operation.path.segments time
    let readback ← Durable.inspect fun workspace =>
      (workspace.workingTree context).openFile operation.path.segments
    Durable.lift (verifyFileMtime context readback.modified
      (displayPath context.projectRoot operation.path.segments) (some before))

/-- The copy of a backup next to its destination, and its rename. -/
def fillFromBackup (operation : FileOperation) (content : Bytes) (temporary : Path) :
    TransactionM Unit := do
  Durable.write fun workspace => workspace.writeProject context temporary content
  let time ← Durable.lift (parseMtime context operation.beforeModifiedAtUtc)
  setGivenProjectTime temporary time
  let readback ← Durable.inspect fun workspace =>
    (workspace.workingTree context).openFile temporary
  Durable.lift (verifyFileMtime context readback.modified
    (displayPath context.projectRoot temporary) operation.beforeModifiedAtUtc)
  renameProjectFile context temporary operation.path.segments

/-- `copy_backup_file_to_project`. -/
def copyBackupFileToProject (operation : FileOperation) (transactionId : String) :
    TransactionM Unit := do
  let backup := backupPath operation.path
  let expected ← Durable.lift operation.requiredBeforeHash
  let expectedSize ← Durable.lift (orError operation.beforeSizeBytes
    (.corruption s!"recovery operation missing before size for {operation.path.text}"))
  let (content, modified) ← Durable.inspect fun workspace =>
    workspace.openPayloadFile context backup
  if context.blake3 content ≠ expected ∨ content.length ≠ expectedSize then
    Durable.lift (.error (.objectHashMismatch s!"backup mismatch for {operation.path.text}"))
  else do
    Durable.lift (verifyFileMtime context modified (displayPath context.transactionRoot backup)
      operation.beforeModifiedAtUtc)
    Durable.inspect fun workspace => workspace.openProjectParent context operation.path.segments
    let temporary := transactionMaterializationTempPath context.blake3 operation.path
      transactionId
    createProjectFile context temporary
    match ← Durable.attempt (fillFromBackup context operation content temporary) with
    | .ok () => return ()
    | .error error => do
        let _ ← Durable.attempt (unlinkProjectFile context temporary)
        Durable.lift (.error error)

/-- `verify_path_hash` of a backup. -/
def verifyBackupHash (path : Path) (expectedHash : ObjectId) : TransactionM Unit := do
  let (content, _) ← Durable.inspect fun workspace => workspace.openPayloadFile context path
  if context.blake3 content ≠ expectedHash then
    Durable.lift (.error (.objectHashMismatch
      s!"{displayPath context.transactionRoot path} expected {expectedHash.toHex}, got {(context.blake3 content).toHex}"))
  else return ()

/-- `recover_before_file`. -/
def recoverBeforeFile (operation : FileOperation) (beforePaths : Finset TrackedUnityFilePath)
    (transactionId : String) : TransactionM Unit := do
  let expected ← Durable.lift operation.requiredBeforeHash
  match ← Durable.inspect fun workspace =>
      workspace.currentHashForRecovery context operation.path beforePaths with
  | some current =>
      if current = expected then restoreBeforeMtimeForRecovery context operation
      else Durable.lift (.error (.workingTreeChanged operation.path.text))
  | none => do
      let exists' ← Durable.inspect fun workspace =>
        workspace.backupRegularFileExists context (backupPath operation.path)
      if exists' = true then do
        verifyBackupHash context (backupPath operation.path) expected
        copyBackupFileToProject context operation transactionId
      else Durable.lift (.error (.corruption
        s!"backup missing for applied operation {operation.path.text}"))

def rollbackBeforeFile (journal : TransactionJournal)
    (beforePaths : Finset TrackedUnityFilePath) (operation : FileOperation) :
    TransactionM Unit := do
  guardDiscard context journal.kind operation.path
  recoverBeforeFile context operation beforePaths journal.transactionId
  guardDiscard context journal.kind operation.path

/-- `recover_project_file_mtime`. -/
def recoverProjectFileMtime (operation : FileOperation) : TransactionM Unit := do
  let file ← Durable.inspect fun workspace =>
    (workspace.workingTree context).openFile operation.path.segments
  if operation.beforeHash ≠ some (context.blake3 file.content) ∨
      operation.beforeSizeBytes ≠ some file.content.length then
    Durable.lift (.error (.workingTreeChanged operation.path.text))
  else do
    let before ← Durable.lift (orError operation.beforeModifiedAtUtc
      (.corruption s!"metadata operation missing before mtime for {operation.path.text}"))
    let after ← Durable.lift (orError operation.afterModifiedAtUtc
      (.corruption s!"metadata operation missing after mtime for {operation.path.text}"))
    if context.canonicalUtc file.modified = before then return ()
    else if context.canonicalUtc file.modified ≠ after then
      Durable.lift (.error (.workingTreeChanged operation.path.text))
    else match context.parseRfc3339 before with
      | .error message => Durable.lift (.error (.corruption message))
      | .ok time => do
          Durable.write fun workspace => workspace.setProjectTime operation.path.segments time
          if context.canonicalUtc time ≠ before then
            Durable.lift (.error (.corruption
              s!"metadata recovery readback mismatch for {operation.path.text}: expected {before}, got {context.canonicalUtc time}"))
          else return ()

/-! The rollback. -/

/-- `recover_topology_transaction`. -/
def recoverTopologyTransaction (journal : TransactionJournal) : TransactionM Unit := do
  let beforePaths := beforeFiles journal.operations
  (journal.operations.filter FileOperation.isStaged).forM
    (rollbackAfterFile context journal beforePaths)
  (journal.directoriesToCreate.mergeSort removalOrder).forM
    (rollbackCreatedDirectory context beforePaths)
  (journal.directoriesToRemove.mergeSort fun left right => decide (left ≤ right)).forM
    (ensureProjectDirectoryExistsForRecovery context)
  (sortOperations (journal.operations.filter FileOperation.isBackedUp)).forM
    (rollbackBeforeFile context journal beforePaths)
  (journal.operations.filter fun operation => operation.operationType == .setMetadata).forM
    (recoverProjectFileMtime context)
  Durable.inspect fun workspace => ensureBeforeStateRestored context.canonicalUtc context.blake3
    (workspace.workingTree context) journal.operations
  if journal.kind = .discard then
    journal.operations.forM fun operation => guardDiscard context journal.kind operation.path
  else return ()

-- the transaction is moved away, for a reason
variable (quarantineUnknownTransaction : String → TransactionM String)

/-- `recover_one` for a transaction whose journal can be read. -/
def recoverOne (directoryId : String) : TransactionM Unit := do
  match ← Durable.inspect fun workspace => .ok workspace.journal with
  | none => do
      let path ← quarantineUnknownTransaction "transaction journal is missing"
      Durable.lift (.error (.corruption
        s!"transaction with a missing journal was quarantined at {path}"))
  | some journal => do
      Durable.lift (validateTransactionJournalIdentity directoryId journal)
      if journal.operations = [] then
        Durable.lift (.error (.corruption "transaction journal contains no operations"))
      else do
        Durable.lift (validateJournalOperations context.load journal.checkpointId
          journal.operations)
        Durable.lift (validateJournalDirectoryTopology journal.operations
          journal.directoriesToRemove journal.directoriesToCreate)
        let backupPaths ← Durable.inspect fun workspace =>
          workspace.validateTransactionPayload context ["backup"]
            ((journal.operations.filter FileOperation.isBackedUp).map
              FileOperation.path).toFinset
        let stagedPaths ← Durable.inspect fun workspace =>
          workspace.validateTransactionPayload context ["staged"]
            ((journal.operations.filter FileOperation.isStaged).map
              FileOperation.path).toFinset
        (journal.operations.filter FileOperation.isStaged).forM
          (cleanupMaterializationTemp context journal.transactionId)
        let needed ← Durable.inspect fun workspace =>
          workspace.transactionNeedsRollback context journal backupPaths stagedPaths
        (if needed = true then recoverTopologyTransaction context journal else pure ())
        removeRepositoryTreeIfExists context ["staged"]
        let _ ← advanceJournal context journal .recovered
        return ()

end Rollback

end CheckPo
