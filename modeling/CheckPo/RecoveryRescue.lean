/-
Rescuing the files that a recovery would overwrite: the conflicts of an interrupted
transaction, the private copies of their files, and the record that lets a rescue go on.
-/
import CheckPo.SnapshotRoots
import CheckPo.TransactionJournal

namespace CheckPo

def transactionRecoveryConflictPlanSchemaVersion : Nat := 1
def recoveryRescueRecordSchemaVersion : Nat := 1
def maxRecoveryRescueRecordBytes : Nat := 8 * 1024 * 1024

structure TransactionRecoveryConflict where
  path : TrackedUnityFilePath
  currentHash : ObjectId
  sizeBytes : Nat
  modifiedAtUtc : String
  metadataOnly : Bool
deriving DecidableEq

structure TransactionRecoveryConflictPlan where
  schemaVersion : Nat
  planId : String
  transactionId : String
  checkpointId : SnapshotId
  conflicts : List TransactionRecoveryConflict

inductive RecoveryRescueState where
  | prepared
  | resolving
  | recovered
deriving DecidableEq

structure RecoveryRescueEntry where
  conflict : TransactionRecoveryConflict
  exported : Bool
deriving DecidableEq

structure RecoveryRescueRecord where
  schemaVersion : Nat
  transactionId : String
  checkpointId : SnapshotId
  planId : String
  createdAtUtc : String
  state : RecoveryRescueState
  exportDirectory : Option String
  entries : List RecoveryRescueEntry
  completedPaths : List TrackedUnityFilePath
deriving DecidableEq

def TransactionRecoveryConflict.toJson (conflict : TransactionRecoveryConflict) : JsonValue :=
  .object
    [("path", .string conflict.path.text),
      ("currentHash", .string conflict.currentHash.toHex),
      ("sizeBytes", .number conflict.sizeBytes),
      ("modifiedAtUtc", .string conflict.modifiedAtUtc),
      ("metadataOnly", .bool conflict.metadataOnly)]

def RecoveryRescueState.toJson : RecoveryRescueState → JsonValue
  | .prepared => .string "prepared"
  | .resolving => .string "resolving"
  | .recovered => .string "recovered"

def RecoveryRescueEntry.toJson (entry : RecoveryRescueEntry) : JsonValue :=
  .object [("conflict", entry.conflict.toJson), ("exported", .bool entry.exported)]

/-- An export directory that there is none of is left out. -/
def RecoveryRescueRecord.toJson (record : RecoveryRescueRecord) : JsonValue :=
  .object
    ([("schemaVersion", .number record.schemaVersion),
      ("transactionId", .string record.transactionId),
      ("checkpointId", .string record.checkpointId.toHex),
      ("planId", .string record.planId),
      ("createdAtUtc", .string record.createdAtUtc),
      ("state", record.state.toJson)] ++
      (record.exportDirectory.map fun path => ("exportDirectory", JsonValue.string path)).toList ++
      [("entries", .array (record.entries.map RecoveryRescueEntry.toJson)),
      ("completedPaths", .array (record.completedPaths.map fun path => .string path.text))])

/-- The sizes in a record are `u64`s. -/
structure RecoveryRescueRecord.Representable (record : RecoveryRescueRecord) : Prop where
  schemaVersion : record.schemaVersion < 2 ^ 32
  entries : ∀ entry ∈ record.entries, entry.conflict.sizeBytes < 2 ^ 64

/-- `serde_json::from_slice` on a record: what was written is read back. -/
structure RescueReader where
  fromSlice : Bytes → Except String RecoveryRescueRecord
  fromSlice_toVec : ∀ record : RecoveryRescueRecord, record.Representable →
    fromSlice (jsonBytes record.toJson) = .ok record

/-- `recovery-rescues/<transaction id>`. -/
structure RescueDirectory where
  objects : ObjectId → Option (TreeEntry Bytes)
  records : String → Option Bytes
  active : Option (TreeEntry Bytes)

/-! Conflicts. -/

def validateTransactionId (transactionId : String) : CheckPoResult Unit :=
  if isLowerHex transactionId 32 = true then .ok ()
  else .error (.user "invalid transaction id.")

def validateRecoveryConflictPlanId (planId : String) : CheckPoResult Unit :=
  if isLowerHex planId 64 = true then .ok ()
  else .error (.user "invalid recovery conflict plan id.")

/-- `hash_recovery_plan_field`: the length and then the bytes. -/
def recoveryPlanField (value : Bytes) : Bytes := toBigEndian 8 value.length ++ value

section Conflicts

variable (canonicalUtc : Timestamp → String) (blake3 : Bytes → Digest32)

def recoveryConflictPlanId (projectId : ProjectId) (transactionId : String)
    (checkpointId : SnapshotId) (journalDigest : String)
    (conflicts : List TransactionRecoveryConflict) : String :=
  (blake3 (utf8 "checkpo.transaction-recovery-conflict-plan.v1" ++ [0] ++
    recoveryPlanField (utf8 (projectIdText projectId)) ++ recoveryPlanField (utf8 transactionId) ++
    recoveryPlanField (utf8 checkpointId.toHex) ++ recoveryPlanField (utf8 journalDigest) ++
    conflicts.flatMap fun conflict =>
      recoveryPlanField (utf8 conflict.path.text) ++
      recoveryPlanField (utf8 conflict.currentHash.toHex) ++
      toBigEndian 8 conflict.sizeBytes ++ recoveryPlanField (utf8 conflict.modifiedAtUtc) ++
      [if conflict.metadataOnly = true then 1 else 0])).toHex

variable (tree : WorkingTree)

/-- What one operation says of the file that stands at its path now. -/
def recoveryConflict (operation : FileOperation) (current : CurrentFileState) :
    CheckPoResult (Option TransactionRecoveryConflict) :=
  let matchesBefore : Bool := operation.beforeHash == some current.hash &&
    operation.beforeSizeBytes == some current.sizeBytes
  let matchesAfter : Bool := operation.afterHash == some current.hash &&
    operation.afterSizeBytes == some current.sizeBytes
  let metadataOnly : Bool := operation.operationType == .setMetadata && matchesBefore &&
    operation.beforeModifiedAtUtc != some current.modifiedAtUtc &&
    operation.afterModifiedAtUtc != some current.modifiedAtUtc
  do
    let contentConflict ← match operation.operationType with
      | .restore => .ok !matchesAfter
      | .replace => .ok (!matchesBefore && !matchesAfter)
      | .delete => .ok !matchesBefore
      | .setMetadata =>
          if matchesBefore = true then .ok false
          else .error (.workingTreeChanged
            s!"{operation.path.text} changed content during a metadata-only operation")
    return if (contentConflict || metadataOnly) = true then some
        { path := operation.path
          currentHash := current.hash
          sizeBytes := current.sizeBytes
          modifiedAtUtc := current.modifiedAtUtc
          metadataOnly := metadataOnly }
      else none

/-- One turn of the analysis. -/
def operationConflict (beforePaths : Finset TrackedUnityFilePath) (operation : FileOperation) :
    CheckPoResult (Option TransactionRecoveryConflict) := do
  match ← currentFileStateForRecovery canonicalUtc blake3 tree operation.path beforePaths with
  | none =>
      if operation.operationType = .setMetadata then
        .error (.workingTreeChanged operation.path.text)
      else return none
  | some current => recoveryConflict operation current

/-- `analyze_transaction_recovery_conflicts_locked`, of a journal that was read. -/
def analyzeTransactionRecoveryConflicts (projectId : ProjectId)
    (journalToVec : TransactionJournal → Bytes) (journal : TransactionJournal) :
    CheckPoResult TransactionRecoveryConflictPlan := do
  let found ← journal.operations.mapM
    (operationConflict canonicalUtc blake3 tree (beforeFiles journal.operations))
  let conflicts := found.reduceOption.mergeSort fun left right => decide (left.path ≤ right.path)
  let journalDigest := (blake3 (journalToVec journal)).toHex
  return {
    schemaVersion := transactionRecoveryConflictPlanSchemaVersion
    planId := recoveryConflictPlanId blake3 projectId journal.transactionId journal.checkpointId
      journalDigest conflicts
    transactionId := journal.transactionId
    checkpointId := journal.checkpointId
    conflicts := conflicts }

/-! Preparing a rescue. -/

def rescueObjectPath (transactionId : String) (hash : ObjectId) : String :=
  s!"recovery-rescues/{transactionId}/objects/{hash.toHex}"

/-- The bytes of the copies that there is none of yet. -/
def requiredRescueBytes (transactionId : String) (objects : ObjectId → Option (TreeEntry Bytes)) :
    List TransactionRecoveryConflict → Finset ObjectId → Nat → CheckPoResult Nat
  | [], _, required => .ok required
  | conflict :: rest, seen, required =>
      if conflict.metadataOnly = true ∨ conflict.currentHash ∈ seen then
        requiredRescueBytes transactionId objects rest seen required
      else match objects conflict.currentHash with
        | some (.file _) => requiredRescueBytes transactionId objects rest
            (insert conflict.currentHash seen) required
        | some _ =>
            let path := rescueObjectPath transactionId conflict.currentHash
            .error (.corruption s!"recovery rescue object is unsafe: {path}")
        | none =>
            if 2 ^ 64 ≤ required + conflict.sizeBytes then
              .error (.corruption "recovery rescue size overflow")
            else requiredRescueBytes transactionId objects rest
              (insert conflict.currentHash seen) (required + conflict.sizeBytes)

def verifyRecoveryConflictIsCurrent (beforePaths : Finset TrackedUnityFilePath)
    (conflict : TransactionRecoveryConflict) : CheckPoResult Unit := do
  let current ← orError
    (← currentFileStateForRecovery canonicalUtc blake3 tree conflict.path beforePaths)
    (.workingTreeChanged conflict.path.text)
  if current.hash ≠ conflict.currentHash ∨ current.sizeBytes ≠ conflict.sizeBytes ∨
      current.modifiedAtUtc ≠ conflict.modifiedAtUtc then
    .error (.workingTreeChanged conflict.path.text)
  else return ()

/-- `preserve_after_file_for_recovery`: a copy of the file under its hash. -/
def preserveAfterFile (transactionId : String) (source : TrackedUnityFilePath)
    (expected : ObjectId) (directory : RescueDirectory) : CheckPoResult RescueDirectory :=
  let preserved := rescueObjectPath transactionId expected
  match directory.objects expected with
  | some (.file content) =>
      if blake3 content ≠ expected then
        let actual := (blake3 content).toHex
        let expectedText := expected.toHex
        .error (.objectHashMismatch s!"{preserved} expected {expectedText}, got {actual}")
      else .ok directory
  | some _ => .error (.corruption s!"recovery copy is not a regular file: {preserved}")
  | none => do
      let file ← tree.openFile source.segments
      if blake3 file.content ≠ expected then
        let actual := (blake3 file.content).toHex
        let expectedText := expected.toHex
        .error (.objectHashMismatch s!"{source.text} expected {expectedText}, got {actual}")
      else return { directory with
        objects := Function.update directory.objects expected (some (.file file.content)) }

/-- Every content conflict is verified and copied, in turn. -/
def preserveConflicts (beforePaths : Finset TrackedUnityFilePath)
    (plan : TransactionRecoveryConflictPlan) (directory : RescueDirectory) :
    CheckPoResult RescueDirectory :=
  plan.conflicts.foldlM (fun directory conflict => do
    verifyRecoveryConflictIsCurrent canonicalUtc blake3 tree beforePaths conflict
    if conflict.metadataOnly = true then return directory
    else
      preserveAfterFile blake3 tree plan.transactionId conflict.path conflict.currentHash
        directory) directory

/-- The record that a prepared rescue starts with. -/
def preparedRescueRecord (plan : TransactionRecoveryConflictPlan)
    (selected : Finset TrackedUnityFilePath) (exportDirectory : Option String)
    (nowUtc : String) : RecoveryRescueRecord :=
  { schemaVersion := recoveryRescueRecordSchemaVersion
    transactionId := plan.transactionId
    checkpointId := plan.checkpointId
    planId := plan.planId
    createdAtUtc := nowUtc
    state := .prepared
    exportDirectory := exportDirectory
    entries := plan.conflicts.map fun conflict =>
      { conflict := conflict, exported := decide (conflict.path ∈ selected) }
    completedPaths := [] }

def writeRecoveryRescueRecord (record : RecoveryRescueRecord) (directory : RescueDirectory) :
    CheckPoResult RescueDirectory := do
  validateTransactionId record.transactionId
  validateRecoveryConflictPlanId record.planId
  return { directory with
    records := Function.update directory.records record.planId (some (jsonBytes record.toJson))
    active := some (.file (jsonBytes record.toJson)) }

/-- `prepare_recovery_conflict_rescue`; the check of the free space is that of the system. -/
def prepareRecoveryConflictRescue (ensureAvailableSpace : Nat → CheckPoResult Unit)
    (journal : TransactionJournal) (plan : TransactionRecoveryConflictPlan)
    (selected : Finset TrackedUnityFilePath) (exportDirectory : Option String) (nowUtc : String)
    (directory : RescueDirectory) : CheckPoResult RescueDirectory := do
  if journal.transactionId ≠ plan.transactionId ∨ journal.checkpointId ≠ plan.checkpointId then
    .error (.workingTreeChanged "recovery transaction changed while preparing rescue data")
  else
    let required ← requiredRescueBytes plan.transactionId directory.objects plan.conflicts ∅ 0
    ensureAvailableSpace required
    let beforePaths := beforeFiles journal.operations
    let preserved ← preserveConflicts canonicalUtc blake3 tree beforePaths plan directory
    -- a second look, now that all copies are there
    plan.conflicts.forM (verifyRecoveryConflictIsCurrent canonicalUtc blake3 tree beforePaths)
    writeRecoveryRescueRecord
      (preparedRescueRecord plan selected exportDirectory nowUtc) preserved

/-! Reading the record. -/

variable (reader : RescueReader) (isAbsolute : String → Bool)

def validateRecoveryRescueRecord (record : RecoveryRescueRecord) (transactionId : String) :
    CheckPoResult Unit := do
  if record.schemaVersion ≠ recoveryRescueRecordSchemaVersion then
    .error (.corruption s!"unsupported recovery rescue schema version: {record.schemaVersion}")
  else
    validateTransactionId record.transactionId
    validateRecoveryConflictPlanId record.planId
    if record.transactionId ≠ transactionId ∨ record.entries = [] then
      .error (.corruption "recovery rescue record identity is invalid")
    else
      let entryPaths := (record.entries.map fun entry => entry.conflict.path).toFinset
      if entryPaths.card ≠ record.entries.length ∨
          record.completedPaths.any (fun path => decide (path ∉ entryPaths)) = true ∨
          record.completedPaths.toFinset.card ≠ record.completedPaths.length then
        .error (.corruption "recovery rescue record contains invalid paths")
      else if record.exportDirectory.any (fun path => !isAbsolute path) = true then
        .error (.corruption "recovery rescue export path is not absolute")
      else return ()

def readActiveRecoveryRescueRecord (transactionId : String) (directory : RescueDirectory) :
    CheckPoResult (Option RecoveryRescueRecord) :=
  let path := s!"recovery-rescues/{transactionId}/active.json"
  match directory.active with
  | none => .ok none
  | some (.file bytes) => do
      let bytes ← readBytesBounded path maxRecoveryRescueRecordBytes bytes
      let record ← jsonResult path (reader.fromSlice bytes)
      validateRecoveryRescueRecord isAbsolute record transactionId
      return some record
  | some _ => .error (.corruption s!"recovery rescue record is not a regular file: {path}")

end Conflicts

end CheckPo
