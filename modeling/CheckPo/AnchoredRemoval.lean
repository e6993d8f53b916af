/-
Changes of the repository's directories through held handles: a directory is made or moved
to a free name, and files and directories are deleted through tombstone names.  Every
creation, rename and removal is a durable step after which the run may stop, and the system
may refuse to delete.
-/
import CheckPo.RepositoryFiles
import CheckPo.TreeListing

namespace CheckPo

abbrev RepositoryM := Durable RepositoryFiles CheckPoError

/-- `ErrorKind::DirectoryNotEmpty`. -/
def directoryNotEmpty : String := "Directory not empty"

def fileTombstone (uuid : String) : String := s!".checkpo-delete-{uuid}.tomb"
def directoryTombstone (uuid : String) : String := s!".checkpo-delete-dir-{uuid}.tomb"

/-- What a deletion asks of the system. -/
inductive SystemCall where
  | openAt
  | rename
  | remove
  | sync

/-- The message of the error with which the system refuses a call. -/
abbrev Refusals := RepositoryFiles → SystemCall → Path → Option String

def granted : Refusals := fun _ _ _ => none

section Run

-- the display path of the repository, and `Uuid::new_v4` at each attempt to find a free name
variable (root : String)
variable (uuid : RepositoryFiles → Path → Nat → String)
variable (refuses : Refusals)

def ask (call : SystemCall) (path : Path) (files : RepositoryFiles) : CheckPoResult Unit :=
  match refuses files call path with
  | none => .ok ()
  | some message => .error (.io (displayPath root path) message)

/-- The first of sixteen tombstone names that is free. -/
def freeTombstone (tombstone : String → String) (files : RepositoryFiles) (path : Path) :
    Option Path :=
  ((List.range 16).map fun attempt =>
    path.dropLast ++ [tombstone (uuid files path attempt)]).find? fun target =>
      (files.entry target).isNone

/-- `detach_file_to_unique_tombstone` and `detach_directory_to_unique_tombstone`. -/
def detach (tombstone : String → String) (path : Path) : RepositoryM Path := do
  let target ← Durable.inspect fun files =>
    orError (freeTombstone uuid tombstone files path) (.unexpected
      s!"could not allocate a unique delete tombstone below {displayPath root path.dropLast}")
  Durable.write fun files => files.move path target
  return target

/-- What has been detached stays where it is. -/
def reportChanged (path : Path) : RepositoryM Unit := do
  Durable.inspect (ask root refuses .sync path.dropLast)
  Durable.lift (.error (.workingTreeChanged (displayPath root path)))

/-- `unlink_file_if_bound` of a file that is there. -/
def unlinkFile (path : Path) : RepositoryM Unit := do
  Durable.inspect (ask root refuses .rename path)
  let tombstone ← detach root uuid fileTombstone path
  match ← Durable.inspect fun files => .ok (ask root refuses .openAt tombstone files) with
  | .error _ => reportChanged root refuses tombstone
  | .ok () => do
      Durable.inspect (ask root refuses .remove tombstone)
      Durable.write fun files => files.erase tombstone

def openDirectoryForMutation (path : Path) (files : RepositoryFiles) : CheckPoResult Unit :=
  match files.entry path with
  | none => .error (.notFound (displayPath root path))
  | some .directory => .ok ()
  | some _ => .error (.io (displayPath root path) "Not a directory")

/-- What `rmdir` answers. -/
def removalRefused (path : Path) (files : RepositoryFiles) : Option String :=
  match refuses files .remove path with
  | some message => some message
  | none => if files.below path = ∅ then none else some directoryNotEmpty

/-- A directory that could not be removed goes back to its name. -/
def restoreDirectory (tombstone path : Path) (message : String) : RepositoryM Unit := do
  let free ← Durable.inspect fun files =>
    .ok ((files.entry path).isNone && (refuses files .rename tombstone).isNone)
  if free = true then do
    Durable.write fun files => files.move tombstone path
    Durable.inspect (ask root refuses .sync path.dropLast)
    Durable.lift (.error (.io (displayPath root tombstone) message))
  else reportChanged root refuses path

/-- `unlink_dir`. -/
def unlinkDir (path : Path) : RepositoryM Unit := do
  Durable.inspect (ask root refuses .openAt path)
  Durable.inspect (openDirectoryForMutation root path)
  Durable.inspect (ask root refuses .rename path)
  let tombstone ← detach root uuid directoryTombstone path
  match ← Durable.inspect fun files => .ok (ask root refuses .openAt tombstone files) with
  | .error _ => reportChanged root refuses tombstone
  | .ok () => do
      match ← Durable.inspect fun files => .ok (removalRefused refuses tombstone files) with
      | none => Durable.write fun files => files.erase tombstone
      | some message => restoreDirectory root refuses tombstone path message

/-! Trees. -/

-- the order in which directories list their names
variable (order : LinearOrder String)

def openFile (path : Path) (files : RepositoryFiles) : CheckPoResult Unit :=
  match files.entry path with
  | none => .error (.notFound (displayPath root path))
  | some (.file _) => .ok ()
  | some .link => .error (.io (displayPath root path) "Too many levels of symbolic links")
  | some _ =>
      .error (.corruption s!"anchored path is not a regular file: {displayPath root path}")

/-- The names in a directory, each with whether it is a directory and whether it is a
link. -/
def listAnchoredDirectoryEntries (dir : Path) (files : RepositoryFiles) :
    CheckPoResult (List (String × Bool × Bool)) :=
  (files.names order dir).mapM fun leaf =>
    match files.entry (dir ++ [leaf]) with
    | some .directory => .ok (leaf, true, false)
    | some .link => .ok (leaf, false, true)
    | some (.file _) => .ok (leaf, false, false)
    | _ =>
        let path := displayPath root (dir ++ [leaf])
        .error (.corruption s!"transaction payload contains a non-regular file: {path}")

/-- One entry of `remove_tree_contents`, which enters a directory by `removeContents`. -/
def removeEntry (removeContents : Path → RepositoryM Unit) (dir : Path)
    (entry : String × Bool × Bool) : RepositoryM Unit :=
  let (leaf, isDirectory, isLink) := entry
  let path := dir ++ [leaf]
  if isLink = true then
    Durable.lift (.error (.corruption
      s!"transaction payload contains a symlink: {displayPath root path}"))
  else if isDirectory = true then do
    Durable.inspect (openDirectoryForMutation root path)
    removeContents path
    unlinkDir root uuid granted path
  else do
    Durable.inspect (openFile root path)
    unlinkFile root uuid granted path

/-- `remove_tree_contents`, to a depth that the caller gives. -/
def removeTreeContents : Nat → Path → RepositoryM Unit
  | 0, _ => return ()
  | depth + 1, dir => do
      let entries ← Durable.inspect (listAnchoredDirectoryEntries root order dir)
      entries.forM (removeEntry root uuid (removeTreeContents depth) dir)

/-- `remove_repo_tree_anchored`; no path below the directory is deeper than the deepest. -/
def removeRepoTreeAnchored (path : Path) : RepositoryM Unit := do
  Durable.inspect (openDirectoryForMutation root path)
  let depth ← Durable.inspect fun files => .ok ((files.below path).sup List.length)
  removeTreeContents root uuid order depth path
  unlinkDir root uuid granted path

/-! Directories. -/

/-- One component of `ensure_anchored_directory`. -/
def ensureComponent (path : Path) : RepositoryM Unit := do
  match ← Durable.inspect fun files => .ok (files.entry path) with
  | none => Durable.write fun files => files.put path .directory
  | some .directory => return ()
  | some _ => Durable.lift (.error (.io (displayPath root path) "Not a directory"))

/-- `ensure_anchored_directory`: missing parents are made before the directory itself. -/
def ensureAnchoredDirectory (path : Path) : RepositoryM Unit :=
  path.inits.tail.forM (ensureComponent root)

/-- `move_repo_directory_anchored`. -/
def moveRepoDirectoryAnchored (source destination : Path) : RepositoryM Unit := do
  Durable.inspect (openDirectoryForMutation root source)
  Durable.inspect (openDirectoryForMutation root destination.dropLast)
  let occupied ← Durable.inspect fun files => .ok (files.entry destination).isSome
  if occupied = true then
    Durable.lift (.error (.alreadyExists (displayPath root destination)))
  else Durable.write fun files => files.move source destination

end Run

end CheckPo
