/-
The durable state that a transaction works on, and its single steps: reading, making, moving
and removing files in the project and in the directory of the transaction.  Every creation,
write, rename and removal is a step after which the run may stop.
-/
import CheckPo.AnchoredRemoval
import CheckPo.ProjectFiles
import CheckPo.TransactionJournal

namespace CheckPo

/-- The project, and the directory of one transaction: its files with the times of their last
changes, and its journal. -/
structure Workspace where
  project : ProjectFiles
  payload : RepositoryFiles
  modified : Path → Timestamp
  journal : Option TransactionJournal

/-- How the volumes of the project and of the repository relate. -/
inductive VolumeRelation where
  | same
  /-- Only the rename tells. -/
  | crossDevice
  | definitelyDifferent
deriving DecidableEq

/-- What a transaction is given. -/
structure TransactionContext where
  /-- The display path of the project. -/
  projectRoot : String
  /-- The display path of the transaction's directory, whose name is the id. -/
  transactionRoot : String
  beyondLink : Path → Except LookupError (TreeEntry ProjectFile)
  canonicalUtc : Timestamp → String
  /-- `DateTime::parse_from_rfc3339`, as an instant. -/
  parseRfc3339 : String → Except String Timestamp
  blake3 : Bytes → Digest32
  /-- `Uuid::new_v4` at each attempt to find a free name. -/
  projectUuid : ProjectFiles → Path → Nat → String
  payloadUuid : RepositoryFiles → Path → Nat → String
  /-- The time that the file system gives to a file that is written now. -/
  clock : Workspace → Timestamp
  nowUtcString : Workspace → String
  /-- The order in which directories list their names. -/
  order : LinearOrder String
  load : SnapshotId → CheckPoResult SnapshotFile
  /-- The loose objects of the repository. -/
  objects : ObjectId → Option Bytes
  volumes : VolumeRelation

abbrev TransactionM := Durable Workspace CheckPoError

/-! Lookups. -/

namespace FileTree

variable {α : Type} (tree : FileTree α)

/-- A lookup that follows no link: what stands on the way has to be a directory. -/
def resolve (path : Path) : Except LookupError (TreeEntry α) :=
  match path.inits.dropLast.findSome? fun top => match tree.entry top with
    | none => some .notFound
    | some .directory => none
    | some _ => some .notADirectory with
  | none => orError (tree.entry path) .notFound
  | some error => .error error

end FileTree

namespace Workspace

variable (context : TransactionContext) (workspace : Workspace)

def workingTree : WorkingTree :=
  workspace.project.workingTree context.projectRoot context.beyondLink

/-- `open_file` of a file of the transaction, with its time. -/
def openPayloadFile (path : Path) : CheckPoResult (Bytes × Timestamp) :=
  match workspace.payload.resolve path with
  | .ok (.file content) => .ok (content, workspace.modified path)
  | .ok .link => .error (.corruption
      s!"anchored path is not a no-follow regular file: {displayPath context.transactionRoot path}")
  | .ok _ => .error (.corruption
      s!"anchored path is not a regular file: {displayPath context.transactionRoot path}")
  | .error error => .error (ioError context.transactionRoot path error)

/-- `open_parent`, where nothing is made. -/
def openPayloadParent (path : Path) : CheckPoResult Unit :=
  match workspace.payload.resolve path.dropLast with
  | .ok .directory => .ok ()
  | .ok _ => .error (ioError context.transactionRoot path.dropLast .notADirectory)
  | .error error => .error (ioError context.transactionRoot path.dropLast error)

/-- `open_directory`. -/
def openProjectDirectory (path : Path) : CheckPoResult Unit :=
  match (workspace.workingTree context).resolveFrom (fun _ => .error .notADirectory) [] path with
  | .ok .directory => .ok ()
  | .ok _ => .error (ioError context.projectRoot path .notADirectory)
  | .error error => .error (ioError context.projectRoot path error)

def openProjectParent (path : Path) : CheckPoResult Unit :=
  workspace.openProjectDirectory context path.dropLast

/-- A file that is written in the directory of the transaction. -/
def writePayload (path : Path) (content : Bytes) : Workspace :=
  { workspace with
    payload := workspace.payload.put path (.file content)
    modified := Function.update workspace.modified path (context.clock workspace) }

def setPayloadTime (path : Path) (time : Timestamp) : Workspace :=
  { workspace with modified := Function.update workspace.modified path time }

def putProject (path : Path) (value : TreeEntry ProjectFile) : Workspace :=
  { workspace with project := workspace.project.put path value }

def eraseProject (path : Path) : Workspace :=
  { workspace with project := workspace.project.erase path }

def moveProject (source target : Path) : Workspace :=
  { workspace with project := workspace.project.move source target }

def writeProject (path : Path) (content : Bytes) : Workspace :=
  workspace.putProject path (.file ⟨content, context.clock workspace⟩)

def setProjectTime (path : Path) (time : Timestamp) : Workspace :=
  match workspace.project.entry path with
  | some (.file file) => workspace.putProject path (.file { file with modified := time })
  | _ => workspace

/-- A file goes from the transaction to the project. -/
def publish (source target : Path) : Workspace :=
  match workspace.payload.entry source with
  | some (.file content) =>
      { workspace.putProject target (.file ⟨content, workspace.modified source⟩) with
        payload := workspace.payload.erase source }
  | _ => workspace

end Workspace

/-! Times. -/

section Steps

variable (context : TransactionContext)

def parseMtime (value : Option String) : CheckPoResult (Option Timestamp) :=
  match value with
  | none => .ok none
  | some value => match context.parseRfc3339 value with
    | .ok time => .ok (some time)
    | .error message => .error (.corruption message)

def verifyFileMtime (modified : Timestamp) (path : String) (expected : Option String) :
    CheckPoResult Unit :=
  match expected with
  | none => .ok ()
  | some expected =>
      if context.canonicalUtc modified ≠ expected then
        .error (.corruption
          s!"mtime readback mismatch for {path}: expected {expected}, got {context.canonicalUtc modified}")
      else .ok ()

/-! Steps in the directory of the transaction. -/

def writeJournal (journal : TransactionJournal) : TransactionM Unit :=
  Durable.write fun workspace => { workspace with journal := some journal }

/-- A step of the repository within the transaction's directory. -/
def onPayload {α : Type} (program : RepositoryM α) : TransactionM α :=
  Durable.zoom Workspace.payload (fun payload workspace => { workspace with payload := payload })
    program

/-- `open_parent_batched`, which makes what is missing. -/
def createPayloadParent (path : Path) : TransactionM Unit :=
  onPayload (ensureAnchoredDirectory context.transactionRoot path.dropLast)

/-- `create_new_file`. -/
def createPayloadFile (path : Path) : TransactionM Unit := do
  let occupied ← Durable.inspect fun workspace => .ok (workspace.payload.entry path).isSome
  if occupied = true then
    Durable.lift (.error (.alreadyExists (displayPath context.transactionRoot path)))
  else Durable.write fun workspace => workspace.writePayload context path []

def unlinkPayloadFile (path : Path) : TransactionM Unit :=
  onPayload (unlinkFile context.transactionRoot context.payloadUuid granted path)

/-- `remove_repository_tree_if_exists`. -/
def removeRepositoryTreeIfExists (path : Path) : TransactionM Unit := do
  let missing ← Durable.inspect fun workspace => .ok (workspace.payload.entry path).isNone
  if missing = true then return ()
  else onPayload (removeRepoTreeAnchored context.transactionRoot context.payloadUuid context.order
    path)

/-! Steps in the project. -/

/-- The first of sixteen tombstone names that is free in the project. -/
def freeProjectTombstone (tombstone : String → String) (files : ProjectFiles) (path : Path) :
    Option Path :=
  ((List.range 16).map fun attempt =>
    path.dropLast ++ [tombstone (context.projectUuid files path attempt)]).find? fun target =>
      (files.entry target).isNone

def detachInProject (tombstone : String → String) (path : Path) : TransactionM Path := do
  let target ← Durable.inspect fun workspace =>
    orError (freeProjectTombstone context tombstone workspace.project path) (.unexpected
      s!"could not allocate a unique delete tombstone below {displayPath context.projectRoot path.dropLast}")
  Durable.write fun workspace => workspace.moveProject path target
  return target

/-- `unlink_file_if_bound` of a project file that is there. -/
def unlinkProjectFile (path : Path) : TransactionM Unit := do
  let tombstone ← detachInProject context fileTombstone path
  Durable.write fun workspace => workspace.eraseProject tombstone

/-- `unlink_dir`: a directory that is not empty is put back under its name. -/
def unlinkProjectDirectory (path : Path) : TransactionM Unit := do
  Durable.inspect fun workspace => workspace.openProjectDirectory context path
  let tombstone ← detachInProject context directoryTombstone path
  let entries ← Durable.inspect fun workspace => .ok (workspace.project.tree.below tombstone)
  if entries = ∅ then Durable.write fun workspace => workspace.eraseProject tombstone
  else
    let occupied ← Durable.inspect fun workspace => .ok (workspace.project.entry path).isSome
    if occupied = true then
      Durable.lift (.error (.workingTreeChanged (displayPath context.projectRoot path)))
    else do
      Durable.write fun workspace => workspace.moveProject tombstone path
      Durable.lift (.error (.io (displayPath context.projectRoot tombstone) directoryNotEmpty))

def removeProjectDirectory (path : TrackedUnityFilePath) : TransactionM Unit := do
  Durable.inspect fun workspace => workspace.openProjectParent context path.segments
  match ← Durable.attempt (unlinkProjectDirectory context path.segments) with
  | .ok () => return ()
  | .error error => Durable.lift (.error (match error with
    | .io _ message => if message = directoryNotEmpty then .workingTreeChanged path.text else error
    | _ => error))

def createProjectDirectory (path : TrackedUnityFilePath) : TransactionM Unit := do
  Durable.inspect fun workspace => workspace.openProjectParent context path.segments
  let occupied ← Durable.inspect fun workspace =>
    .ok (workspace.project.entry path.segments).isSome
  if occupied = true then Durable.lift (.error (.workingTreeChanged path.text))
  else Durable.write fun workspace => workspace.putProject path.segments .directory

/-- One component of `open_parent_batched` in the project. -/
def ensureProjectComponent (path : Path) : TransactionM Unit := do
  match ← Durable.inspect fun workspace => .ok (workspace.project.entry path) with
  | none => Durable.write fun workspace => workspace.putProject path .directory
  | some .directory => return ()
  | some _ => Durable.lift (.error (ioError context.projectRoot path .notADirectory))

def createProjectParent (path : Path) : TransactionM Unit :=
  path.dropLast.inits.tail.forM (ensureProjectComponent context)

/-- `create_new_file` in the project. -/
def createProjectFile (path : Path) : TransactionM Unit := do
  let occupied ← Durable.inspect fun workspace => .ok (workspace.project.entry path).isSome
  if occupied = true then
    Durable.lift (.error (.alreadyExists (displayPath context.projectRoot path)))
  else Durable.write fun workspace => workspace.writeProject context path []

/-- `rename_no_replace_to` of a file within the project. -/
def renameProjectFile (source target : Path) : TransactionM Unit := do
  let occupied ← Durable.inspect fun workspace => .ok (workspace.project.entry target).isSome
  if occupied = true then
    Durable.lift (.error (.alreadyExists (displayPath context.projectRoot target)))
  else Durable.write fun workspace => workspace.moveProject source target

/-- `set_times`, where a time is given. -/
def setGivenProjectTime (path : Path) (time : Option Timestamp) : TransactionM Unit :=
  match time with
  | some time => Durable.write fun workspace => workspace.setProjectTime path time
  | none => return ()

/-- The check that a discard makes between its steps. -/
def guardDiscard (kind : OperationPlanKind) (path : TrackedUnityFilePath) : TransactionM Unit :=
  if kind = .discard then
    Durable.inspect fun workspace =>
      ensureDiscardFolderMetaOperationIsSafe (workspace.workingTree context) path
  else return ()

end Steps

end CheckPo
