/-
The journal of a transaction, and the two checks that the operation paths of a project are
in the state from before the transaction.
-/
import CheckPo.JsonText
import CheckPo.PlanValidation
import CheckPo.RepositoryFiles

namespace CheckPo

def transactionJournalSchemaVersion : Nat := 3
def maxTransactionJournalBytes : Nat := 512 * 1024 * 1024

inductive JournalState where
  | created
  | staged
  | applying
  | committed
  | recovered
deriving DecidableEq

structure TransactionJournal where
  schemaVersion : Nat
  transactionId : String
  state : JournalState
  checkpointId : SnapshotId
  kind : OperationPlanKind
  operations : List FileOperation
  directoriesToRemove : List TrackedUnityFilePath
  directoriesToCreate : List TrackedUnityFilePath
  createdAtUtc : String
  updatedAtUtc : String
deriving DecidableEq

/-- The sizes of an operation are `u64`s. -/
def FileOperation.Representable (operation : FileOperation) : Prop :=
  (∀ size ∈ operation.beforeSizeBytes, size < 2 ^ 64) ∧
    ∀ size ∈ operation.afterSizeBytes, size < 2 ^ 64

structure TransactionJournal.Representable (journal : TransactionJournal) : Prop where
  schemaVersion : journal.schemaVersion < 2 ^ 32
  operations : ∀ operation ∈ journal.operations, operation.Representable

/-! What is written of a journal. -/

/-- An `Option` field. -/
def optionJson {α : Type} (toJson : α → JsonValue) : Option α → JsonValue
  | none => .null
  | some value => toJson value

def FileOperationType.toJson : FileOperationType → JsonValue
  | .restore => .string "restore"
  | .replace => .string "replace"
  | .delete => .string "delete"
  | .setMetadata => .string "setMetadata"

def FileOperation.toJson (operation : FileOperation) : JsonValue :=
  .object
    [("operationType", operation.operationType.toJson),
      ("path", .string operation.path.text),
      ("beforeHash", optionJson (fun hash => .string hash.toHex) operation.beforeHash),
      ("beforeSizeBytes", optionJson .number operation.beforeSizeBytes),
      ("beforeModifiedAtUtc", optionJson .string operation.beforeModifiedAtUtc),
      ("afterHash", optionJson (fun hash => .string hash.toHex) operation.afterHash),
      ("afterSizeBytes", optionJson .number operation.afterSizeBytes),
      ("afterModifiedAtUtc", optionJson .string operation.afterModifiedAtUtc)]

def JournalState.toJson : JournalState → JsonValue
  | .created => .string "created"
  | .staged => .string "staged"
  | .applying => .string "applying"
  | .committed => .string "committed"
  | .recovered => .string "recovered"

def OperationPlanKind.toJson : OperationPlanKind → JsonValue
  | .restore => .string "restore"
  | .discard => .string "discard"

def TransactionJournal.toJson (journal : TransactionJournal) : JsonValue :=
  .object
    [("schemaVersion", .number journal.schemaVersion),
      ("transactionId", .string journal.transactionId),
      ("state", journal.state.toJson),
      ("checkpointId", .string journal.checkpointId.toHex),
      ("kind", journal.kind.toJson),
      ("operations", .array (journal.operations.map FileOperation.toJson)),
      ("directoriesToRemove", .array (journal.directoriesToRemove.map fun path =>
        .string path.text)),
      ("directoriesToCreate", .array (journal.directoriesToCreate.map fun path =>
        .string path.text)),
      ("createdAtUtc", .string journal.createdAtUtc),
      ("updatedAtUtc", .string journal.updatedAtUtc)]

/-- `serde_json::to_vec`. -/
def jsonBytes (value : JsonValue) : Bytes := utf8 (String.ofList value.compact)

/-! What is read of a journal. -/

/-- `serde_json::from_slice` on a journal file: its envelope, and all of it. -/
structure JournalReader where
  schemaVersion : Bytes → Except String Nat
  journal : Bytes → Except String TransactionJournal

/-- The directory of a transaction is named by its id. -/
def validateTransactionJournalIdentity (directoryId : String) (journal : TransactionJournal) :
    CheckPoResult Unit :=
  if transactionJournalSchemaVersion < journal.schemaVersion then
    .error (.unsupportedFormat "transaction journal schema" journal.schemaVersion
      transactionJournalSchemaVersion)
  else if journal.schemaVersion ≠ transactionJournalSchemaVersion then
    .error (.corruption s!"invalid transaction journal schema: {journal.schemaVersion}")
  else if directoryId ≠ journal.transactionId then
    .error (.corruption
      s!"transaction id does not match journal directory: {journal.transactionId} != {directoryId}")
  else .ok ()

/-- `serde_json::Error` at a path. -/
def jsonResult {α : Type} (path : String) : Except String α → CheckPoResult α
  | .ok value => .ok value
  | .error message => .error (.json path message)

section Journal

variable (reader : JournalReader)

def readTransactionJournal (path : String) (bytes : Bytes) : CheckPoResult TransactionJournal := do
  let bytes ← readBytesBounded path maxTransactionJournalBytes bytes
  let schemaVersion ← jsonResult path (reader.schemaVersion bytes)
  if schemaVersion ≠ transactionJournalSchemaVersion then
    .error (.unsupportedFormat "transaction journal schema" schemaVersion
      transactionJournalSchemaVersion)
  else jsonResult path (reader.journal bytes)

end Journal

/-! The state before the transaction. -/

section BeforeState

variable (canonicalUtc : Timestamp → String) (blake3 : Bytes → Digest32) (tree : WorkingTree)

/-- The path has the state that the operation found. -/
def inBeforeState (operation : FileOperation) (current : Option CurrentFileState) : Bool :=
  decide (current.map CurrentFileState.hash = operation.beforeHash ∧
    current.map CurrentFileState.sizeBytes = operation.beforeSizeBytes ∧
    current.map CurrentFileState.modifiedAtUtc = operation.beforeModifiedAtUtc)

/-- `current_file_state_for_recovery`: a directory, and what is below a file that was there
before, count as missing. -/
def currentFileStateForRecovery (path : TrackedUnityFilePath)
    (beforePaths : Finset TrackedUnityFilePath) : CheckPoResult (Option CurrentFileState) :=
  match tree.symlinkMetadata path.segments with
  | .ok (.file _) => do
      return some (← tree.currentFileStateFromAnchor canonicalUtc blake3 path)
  | .ok .directory => .ok none
  | .ok _ => .error (.workingTreeChanged path.text)
  | .error .notFound => .ok none
  | .error error =>
      if error = .notADirectory ∧ hasTrackedAncestor path beforePaths = true then .ok none
      else .error (ioError tree.root path.segments error)

/-- The check after a rollback. -/
def ensureBeforeStateRestored (operations : List FileOperation) : CheckPoResult Unit :=
  operations.forM fun operation => do
    let current ← currentFileStateForRecovery canonicalUtc blake3 tree operation.path
      (beforeFiles operations)
    if inBeforeState operation current = true then return ()
    else .error (.corruption
      s!"transaction recovery did not restore before state for {operation.path.text}")

/-- The loop of `inspect_project_before_state`, which stops at the first difference. -/
def inspectOperations : List FileOperation → CheckPoResult Bool
  | [] => .ok true
  | operation :: rest => do
      let current ← tree.currentFileState canonicalUtc blake3 operation.path
      if inBeforeState operation current = true then inspectOperations rest else return false

/-- `inspect_project_before_state`, of what stands at the journal's path. -/
def inspectProjectBeforeState (reader : JournalReader) (directoryId journalPath : String)
    (metadata : CheckPoResult (TreeEntry Bytes)) : Bool × List String :=
  let result := do
    match ← metadata with
    | .file bytes => do
        let journal ← readTransactionJournal reader journalPath bytes
        validateTransactionJournalIdentity directoryId journal
        if journal.operations = [] then
          .error (.corruption "transaction journal contains no operations")
        else inspectOperations canonicalUtc blake3 tree journal.operations
    | _ => .error (.corruption s!"transaction journal is not a regular file: {journalPath}")
  match result with
  | .ok isBefore => (isBefore, [])
  | .error error => (false,
      [s!"Transaction state could not be verified before quarantine: {error.message}"])

end BeforeState

end CheckPo
