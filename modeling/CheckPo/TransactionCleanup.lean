/-
The cleanup of finished transactions: what its plan lists, and how the plan is carried out.
The directories of the transactions and of their rescues are moved to a new batch in the
trash, and then everything in the trash is removed.
-/
import CheckPo.AnchoredRemoval
import CheckPo.PendingTransactions
import CheckPo.SnapshotRoots

namespace CheckPo

def transactionCleanupPlanSchemaVersion : Nat := 1

/-- `journals_dir`. -/
def journalsDir : Path := ["journals", "transactions"]

def transactionCleanupTrashDir : Path := ["journals", "transaction-cleanup-trash"]

def recoveryRescuesDir : Path := ["recovery-rescues"]

/-! The layout of a repository. -/

def layoutDirectories : List Path :=
  [[], ["refs"], ["snapshots"], ["snapshots", "v2"], ["inventory"], ["inventory", "snapshots"],
    ["inventory", "snapshots", "states"], ["inventory", "snapshots", "sets"],
    ["inventory", "snapshots", "sets", "roots"], ["inventory", "snapshots", "sets", "leaves"],
    ["manifests"], ["manifests", "v2"], ["manifests", "v2", "nodes"],
    ["manifests", "v2", "leaves"], ["objects"], ["objects", "loose"], ["indexes"], ["journals"],
    journalsDir, ["tmp"], ["locks"]]

def optionalLayoutDirectories : List (Path × String) :=
  [(["quarantined-journals"], "transaction quarantine"), (recoveryRescuesDir, "recovery rescue")]

/-- `validate_repository_layout_no_follow`. -/
def validateRepositoryLayout (root : String) (files : RepositoryFiles) : CheckPoResult Unit := do
  layoutDirectories.forM (files.ensureRegularDirectoryNoFollow root)
  optionalLayoutDirectories.forM fun (path, label) =>
    match files.entry path with
    | none | some .directory => .ok ()
    | some _ => .error (.corruption s!"unsafe {label} directory: {displayPath root path}")

section Status

variable (reader : JournalReader) (root : String) (order : LinearOrder String)

/-- What stands at a name in the transactions directory. -/
def transactionEntryAt (files : RepositoryFiles) (name : String) : TransactionEntry :=
  match files.entry (journalsDir ++ [name]) with
  | some .link => .link
  | some .directory => .directory (files.entry (journalsDir ++ [name, "journal.json"]))
  | _ => .notDirectory

def transactionEntries (files : RepositoryFiles) : Option (List (String × TransactionEntry)) :=
  if files.entry journalsDir = none then none
  else some ((files.names order journalsDir).map fun name =>
    (name, transactionEntryAt files name))

/-- `pending_transactions_for_project` on the files of the repository. -/
def pendingTransactionsOf (files : RepositoryFiles) : CheckPoResult (List PendingTransaction) :=
  pendingTransactionsForProject reader (displayPath root journalsDir)
    (validateRepositoryLayout root files) (transactionEntries order files)

end Status

/-! The plan. -/

inductive CleanupLocation where
  | active
  | trash
deriving DecidableEq

structure TransactionCleanupCandidate where
  location : CleanupLocation
  transactionId : String
  state : String
  journalDigest : String
  fileCount : Nat
  sizeBytes : Nat
  treeMetadataDigest : String
deriving DecidableEq

structure TransactionCleanupPlan where
  schemaVersion : Nat
  projectId : ProjectId
  directoryCount : Nat
  fileCount : Nat
  totalBytes : Nat
  candidates : List TransactionCleanupCandidate
deriving DecidableEq

structure TransactionCleanupResult where
  deletedDirectoryCount : Nat
  deletedBytes : Nat
deriving DecidableEq

/-- "active" and "cleanupTrash". -/
def CleanupLocation.text : CleanupLocation → String
  | .active => "active"
  | .trash => "cleanupTrash"

def CleanupLocation.directory : CleanupLocation → Path
  | .active => journalsDir
  | .trash => transactionCleanupTrashDir

def JournalState.cleanupText : JournalState → String
  | .committed => "committed"
  | .recovered => "recovered"
  | .created => "created"
  | .staged => "staged"
  | .applying => "applying"

/-- `u64::to_le_bytes`. -/
def toLittleEndian64 (value : Nat) : Bytes := (toBigEndian 8 value).reverse

section Plan

variable (reader : JournalReader) (blake3 : Bytes → Digest32) (root : String)
variable (order : LinearOrder String)
-- `AnchoredFile::fingerprint`: the identity, the size and the times of a file
variable (fingerprint : RepositoryFiles → Path → String)

def hashCleanupRelativePath (relative : Path) : Bytes :=
  let bytes := utf8 ("/".intercalate relative)
  toLittleEndian64 bytes.length ++ bytes

def hashCleanupFileIdentity (files : RepositoryFiles) (path : Path) : Bytes :=
  let bytes := utf8 (fingerprint files path)
  toLittleEndian64 bytes.length ++ bytes

structure TreeMetadata where
  fileCount : Nat
  sizeBytes : Nat
  hashed : Bytes

/-- One entry of the walk through a payload. -/
def treeMetadataStep (files : RepositoryFiles) (top : Path) (metadata : TreeMetadata)
    (path : Path) : CheckPoResult TreeMetadata :=
  let hashed := metadata.hashed ++ hashCleanupRelativePath (path.drop top.length)
  match files.entry path with
  | some .link => .error (.corruption
      s!"transaction payload contains a symbolic link or reparse point: {displayPath root path}")
  | some .directory => .ok { metadata with hashed := hashed ++ utf8 "d" }
  | some (.file content) =>
      if 2 ^ 64 ≤ metadata.fileCount + 1 then
        .error (.corruption "transaction file count overflow")
      else if 2 ^ 64 ≤ metadata.sizeBytes + content.length then
        .error (.corruption "transaction payload size overflow")
      else .ok {
        fileCount := metadata.fileCount + 1
        sizeBytes := metadata.sizeBytes + content.length
        hashed := hashed ++ utf8 "f" ++ toLittleEndian64 content.length ++
          hashCleanupFileIdentity fingerprint files path }
  | some .special => .error (.corruption
      s!"transaction payload contains an unsupported entry: {displayPath root path}")
  | none => .error (.notFound (displayPath root path))

/-- `transaction_tree_metadata`: the files, their bytes and the digest of the payload. -/
def transactionTreeMetadata (files : RepositoryFiles) (top : Path) :
    CheckPoResult (Nat × Nat × String) := do
  files.ensureRegularDirectoryNoFollow root top
  let metadata ← (files.walk top).foldlM (treeMetadataStep root fingerprint files top)
    ⟨0, 0, utf8 "checkpo-transaction-cleanup-tree-v2\x00"⟩
  return (metadata.fileCount, metadata.sizeBytes, (blake3 metadata.hashed).toHex)

def optionalTransactionTreeMetadata (files : RepositoryFiles) (top : Path) :
    CheckPoResult (Nat × Nat × String) :=
  match files.entry top with
  | none => .ok (0, 0, (blake3 (utf8 "missing")).toHex)
  | some .directory => transactionTreeMetadata blake3 root fingerprint files top
  | some _ =>
      .error (.corruption s!"transaction rescue payload is unsafe: {displayPath root top}")

def transactionCleanupCandidate (files : RepositoryFiles) (txRoot : Path) (journalBytes : Bytes)
    (journal : TransactionJournal) : CheckPoResult TransactionCleanupCandidate := do
  let (journalFileCount, journalSizeBytes, journalTreeDigest) ←
    transactionTreeMetadata blake3 root fingerprint files txRoot
  let (rescueFileCount, rescueSizeBytes, rescueTreeDigest) ←
    optionalTransactionTreeMetadata blake3 root fingerprint files
      (recoveryRescuesDir ++ [journal.transactionId])
  let fileCount ← checkedSum (.corruption "transaction file count overflow")
    [journalFileCount, rescueFileCount]
  let sizeBytes ← checkedSum (.corruption "transaction payload size overflow")
    [journalSizeBytes, rescueSizeBytes]
  return {
    location := .active
    transactionId := journal.transactionId
    state := journal.state.cleanupText
    journalDigest := (blake3 journalBytes).toHex
    fileCount
    sizeBytes
    treeMetadataDigest := (blake3 (utf8 "checkpo-transaction-cleanup-bundle-v1\x00" ++
      utf8 journalTreeDigest ++ utf8 rescueTreeDigest)).toHex }

def cleanupTrashCandidate (files : RepositoryFiles) (name : String) :
    CheckPoResult TransactionCleanupCandidate := do
  let (fileCount, sizeBytes, treeMetadataDigest) ←
    transactionTreeMetadata blake3 root fingerprint files (transactionCleanupTrashDir ++ [name])
  return {
    location := .trash
    transactionId := name
    state := "cleanupTrash"
    journalDigest := ""
    fileCount
    sizeBytes
    treeMetadataDigest }

/-- The journal in a transaction's directory, which is named by it. -/
def identifiedJournal (name : String) (journalBytes : Bytes) :
    CheckPoResult TransactionJournal := do
  let journal ← readTransactionJournal reader
    (displayPath root (journalsDir ++ [name, "journal.json"])) journalBytes
  validateTransactionJournalIdentity name journal
  return journal

/-- An entry of the transactions directory, as far as it can be cleaned up. -/
def activeCandidate (files : RepositoryFiles) (name : String) :
    CheckPoResult (Option TransactionCleanupCandidate) :=
  match files.entry (journalsDir ++ [name]),
      files.entry (journalsDir ++ [name, "journal.json"]) with
  | some .directory, some (.file journalBytes) => do
      let journal ← identifiedJournal reader root name journalBytes
      if journal.state.isTerminal = true then
        let candidate ← transactionCleanupCandidate blake3 root fingerprint files
          (journalsDir ++ [name]) journalBytes journal
        return some candidate
      else return none
  | _, _ => .ok none

/-- An entry of the trash, which has to be a directory. -/
def trashCandidate (files : RepositoryFiles) (name : String) :
    CheckPoResult TransactionCleanupCandidate :=
  let path := transactionCleanupTrashDir ++ [name]
  match files.entry path with
  | some .directory => cleanupTrashCandidate blake3 root fingerprint files name
  | _ => .error (.corruption
      s!"transaction cleanup trash contains an unsafe entry: {displayPath root path}")

def trashCandidates (files : RepositoryFiles) :
    CheckPoResult (List TransactionCleanupCandidate) :=
  match files.entry transactionCleanupTrashDir with
  | none => .ok []
  | some .directory =>
      (files.names order transactionCleanupTrashDir).mapM
        (trashCandidate blake3 root fingerprint files)
  | some _ =>
      let path := displayPath root transactionCleanupTrashDir
      .error (.corruption s!"transaction cleanup trash is not a regular directory: {path}")

/-- By the location, then by the id. -/
def candidateOrder (left right : TransactionCleanupCandidate) : Bool :=
  if left.location = right.location then decide (left.transactionId ≤ right.transactionId)
  else decide (left.location.text ≤ right.location.text)

variable (projectId : ProjectId)

def transactionCleanupPlan (files : RepositoryFiles) : CheckPoResult TransactionCleanupPlan := do
  validateRepositoryLayout root files
  if files.entry journalsDir = none then
    return ⟨transactionCleanupPlanSchemaVersion, projectId, 0, 0, 0, []⟩
  else
    let active ← (files.names order journalsDir).mapM
      (activeCandidate reader blake3 root fingerprint files)
    let trash ← trashCandidates blake3 root order fingerprint files
    let candidates := (active.reduceOption ++ trash).mergeSort candidateOrder
    let fileCount ← checkedSum (.corruption "transaction file count overflow")
      (candidates.map TransactionCleanupCandidate.fileCount)
    let totalBytes ← checkedSum (.corruption "transaction payload size overflow")
      (candidates.map TransactionCleanupCandidate.sizeBytes)
    return {
      schemaVersion := transactionCleanupPlanSchemaVersion
      projectId
      directoryCount := candidates.length
      fileCount
      totalBytes
      candidates }

/-! Carrying it out. -/

-- `Uuid::new_v4`
variable (uuid : RepositoryFiles → Path → Nat → String)

/-- A candidate of the plan as it is now. -/
def currentCandidate (files : RepositoryFiles) (expected : TransactionCleanupCandidate) :
    CheckPoResult TransactionCleanupCandidate :=
  let name := expected.transactionId
  match expected.location with
  | .active => do
      let journalPath := journalsDir ++ [name, "journal.json"]
      openFile root journalPath files
      let journalBytes := (files.file journalPath).getD []
      let journal ← identifiedJournal reader root name journalBytes
      transactionCleanupCandidate blake3 root fingerprint files (journalsDir ++ [name])
        journalBytes journal
  | .trash => cleanupTrashCandidate blake3 root fingerprint files name

def revalidateCandidate (files : RepositoryFiles) (expected : TransactionCleanupCandidate) :
    CheckPoResult Unit :=
  let path := expected.location.directory ++ [expected.transactionId]
  match files.entry path with
  | none => .error (.notFound (displayPath root path))
  | some .directory => do
      let current ← currentCandidate reader blake3 root fingerprint files expected
      if current ≠ expected then
        .error (.workingTreeChanged "transaction cleanup target changed during apply")
      else .ok ()
  | some _ => .error (.corruption
      s!"transaction cleanup target is not a regular directory: {displayPath root path}")

/-- A transaction's rescue moves to the batch before the transaction does. -/
def moveToBatch (batchRoot : Path) (transactionId : String) : RepositoryM Unit := do
  let rescueRoot := recoveryRescuesDir ++ [transactionId]
  match ← Durable.inspect fun files => .ok (files.entry rescueRoot) with
  | some .directory =>
      moveRepoDirectoryAnchored root rescueRoot (batchRoot ++ [s!"rescue-{transactionId}"])
  | none => pure ()
  | some _ => Durable.lift (.error (.corruption
      s!"transaction rescue cleanup target is unsafe: {displayPath root rescueRoot}"))
  moveRepoDirectoryAnchored root (journalsDir ++ [transactionId]) (batchRoot ++ [transactionId])

/-- A new batch for the transactions, if there are any. -/
def moveActiveRoots (transactionIds : List String) : RepositoryM (List String) := do
  if transactionIds = [] then return []
  else
    ensureAnchoredDirectory root transactionCleanupTrashDir
    let batch ← Durable.inspect fun files => .ok (uuid files transactionCleanupTrashDir 0)
    ensureAnchoredDirectory root (transactionCleanupTrashDir ++ [batch])
    transactionIds.forM (moveToBatch root (transactionCleanupTrashDir ++ [batch]))
    return [batch]

def candidateIds (location : CleanupLocation) (candidates : List TransactionCleanupCandidate) :
    List String :=
  (candidates.filter fun candidate => candidate.location = location).map
    TransactionCleanupCandidate.transactionId

/-- `apply_transaction_cleanup_plan`. -/
def applyTransactionCleanupPlan (plan : TransactionCleanupPlan) :
    RepositoryM TransactionCleanupResult := do
  Durable.inspect fun files =>
    plan.candidates.forM (revalidateCandidate reader blake3 root fingerprint files)
  let batch ← moveActiveRoots root uuid (candidateIds .active plan.candidates)
  (candidateIds .trash plan.candidates ++ batch).forM fun name =>
    removeRepoTreeAnchored root uuid order (transactionCleanupTrashDir ++ [name])
  return ⟨plan.directoryCount, plan.totalBytes⟩

/-- `cleanup_journals_with_expected_plan`, where the project may be changed and is locked. -/
def cleanupJournalsWithExpectedPlan (expectedPlan : TransactionCleanupPlan) (yes : Bool) :
    RepositoryM TransactionCleanupResult := do
  let found := expectedPlan.schemaVersion
  let supported := transactionCleanupPlanSchemaVersion
  if yes = false then Durable.lift (.error (.user "journal cleanup requires --yes."))
  else if found ≠ supported then Durable.lift (.error (.corruption
    s!"unsupported transaction cleanup plan schema version: found {found}, supported {supported}"))
  else
    let currentPlan ← Durable.inspect
      (transactionCleanupPlan reader blake3 root order fingerprint projectId)
    if currentPlan ≠ expectedPlan then Durable.lift (.error (.workingTreeChanged
      "transaction cleanup targets changed after preview"))
    else applyTransactionCleanupPlan reader blake3 root order fingerprint uuid currentPlan

end Plan

end CheckPo
